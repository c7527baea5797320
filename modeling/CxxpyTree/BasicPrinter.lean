import CxxpyTree.AstPrinter

/-! The printers of tree/printer.cpp with their options: what they put into the stream, and the text that it
becomes with and without `indent_dots`. -/

namespace CxxpyTree

namespace BasicPrinter

/-- What is put into `ost`: text, or `endl(..)` at a level. -/
inductive Write where
  | text (w : List Char)
  | endl (level : Int)

/-- `DotsEndlPrint::print`; the loop counts a `short` down to zero, modulo `2 ^ 16`. -/
def dotsEndlPrint (dots : Bool) (level : Int) : List Char :=
  newline :: (List.replicate (level % 2 ^ 16).toNat (if dots then ".   ".toList else "    ".toList)).flatten

def Write.print (dots : Bool) : Write → List Char
  | .text w => w
  | .endl level => dotsEndlPrint dots level

def output (dots : Bool) (writes : List Write) : List Char := writes.flatMap (Write.print dots)

/-! `Printer` is `verbose`, and `Dumper` is not: it leaves out the names of the fields and the numbers in a list. -/

section Visitors
variable (verbose : Bool)

/-- `attr(name)` of `Printer`, and `endl(1)` of `Dumper`. -/
def attr (level : Int) (attr : CStr) : List Write :=
  .endl (level + 1) :: if verbose then [.text ('.' :: (attr ++ " = ".toList))] else []

def typeIndex (idx : UInt8) : List Write := [.text (AstPrinter.typeIndex idx)]

/-- `print_list` around its elements, inside its `Level`. -/
def listWrites (level : Int) (base : CStr) (empty : Bool) (elems : List Write) : List Write :=
  .text ("list<".toList ++ (base ++ "> [".toList)) :: (elems ++ ((if empty then [] else [.endl level]) ++ [.text [']']]))

/-- What `print_list` writes before element `k`. -/
def elemWrites (level : Int) (k : Nat) : List Write :=
  .endl (level + 1) :: if verbose then [.text ('[' :: (decimalText k ++ "] = ".toList))] else []

def textNode (name str : CStr) : List Write := [.text (AstPrinter.textNode name str)]

/-- `name(arg)` and the parentheses around fields. -/
def fieldsNode (level : Int) (name : CStr) (fields : List Write) : List Write :=
  .text (name ++ ['(']) :: (fields ++ [.endl level, .text [')']])

def visitLiteral (arg : Literal) : List Write := textNode "Literal".toList arg.str
def visitNodeName (arg : NodeName) : List Write := textNode "NodeName".toList arg.ident
def visitArgName (arg : ArgName) : List Write := textNode "ArgName".toList arg.str

mutual

def visitTreeNode (level : Int) : TreeNode → List Write
  | .mk name args => fieldsNode level "TreeNode".toList
      (attr verbose level "name".toList ++ visitNodeName name ++ attr verbose level "args".toList ++
        visitNodeArgs (level + 1) args)
  termination_by structural arg => arg

def visitNodeArgs (level : Int) : NodeArgs → List Write
  | .listArgs list => fieldsNode level "ListArgs".toList
      (attr verbose level "list".toList ++
        listWrites (level + 1) "NodeArg".toList list.isEmpty (printNodeArgs (level + 1) 0 list))
  | .literalArgs literal => fieldsNode level "LiteralArgs".toList
      (attr verbose level "literal".toList ++ visitLiteral literal)
  termination_by structural arg => arg

/-- The loop of `print_list<NodeArg>` from element `k` on. -/
def printNodeArgs (level : Int) (k : Nat) : List NodeArg → List Write
  | [] => []
  | arg :: list => elemWrites verbose level k ++ visitNodeArg (level + 1) arg ++ printNodeArgs level (k + 1) list
  termination_by structural list => list

def visitNodeArg (level : Int) : NodeArg → List Write
  | .mk name value => fieldsNode level "NodeArg".toList
      (attr verbose level "name".toList ++ visitArgName name ++ attr verbose level "value".toList ++
        visitArgValue (level + 1) value)
  termination_by structural arg => arg

def visitArgValue (level : Int) : ArgValue → List Write
  | .nodeValue node => fieldsNode level "NodeValue".toList
      (attr verbose level "node".toList ++ visitTreeNode (level + 1) node)
  | .listValue list => fieldsNode level "ListValue".toList
      (attr verbose level "list".toList ++ visitNodeList (level + 1) list)
  | .literalValue literal => fieldsNode level "LiteralValue".toList
      (attr verbose level "literal".toList ++ visitLiteral literal)
  termination_by structural arg => arg

def visitNodeList (level : Int) : NodeList → List Write
  | .mk base elems => fieldsNode level "NodeList".toList
      (attr verbose level "base".toList ++ visitNodeName base ++ attr verbose level "elems".toList ++
        listWrites (level + 1) "ListElem".toList elems.isEmpty (printListElems (level + 1) 0 elems))
  termination_by structural arg => arg

/-- The loop of `print_list<ListElem>` from element `k` on. -/
def printListElems (level : Int) (k : Nat) : List ListElem → List Write
  | [] => []
  | elem :: elems => elemWrites verbose level k ++ visitListElem (level + 1) elem ++ printListElems level (k + 1) elems
  termination_by structural elems => elems

def visitListElem (level : Int) : ListElem → List Write
  | .mk index node => fieldsNode level "ListElem".toList
      (attr verbose level "index".toList ++ typeIndex index ++ attr verbose level "node".toList ++
        visitTreeNode (level + 1) node)
  termination_by structural arg => arg

end

def visitTree (level : Int) : Tree → List Write
  | ⟨root⟩ => fieldsNode level "Tree".toList (attr verbose level "root".toList ++ visitTreeNode verbose (level + 1) root)

/-- `print(ast)`: `indent_level` starts at -1 and one `Level` is entered for the root. -/
def print (dots : Bool) (tree : Tree) : List Char := output dots (visitTree verbose 0 tree) ++ [newline]

end Visitors

/-! `SourcePrinter`. -/

namespace Source
variable (pretty : Bool)

def whenPretty (writes : List Write) : List Write := if pretty then writes else []

def visitLiteral (literal : Literal) : List Write := [.text (SourcePrinter.visitLiteral literal)]
def visitNodeName (name : NodeName) : List Write := [.text (SourcePrinter.visitNodeName name)]
def visitArgName (name : ArgName) : List Write := [.text (SourcePrinter.visitArgName pretty name)]
def printIndex (idx : UInt8) : List Write := [.text (SourcePrinter.printIndex pretty idx)]

mutual

def visitTreeNode (level : Int) : TreeNode → List Write
  | .mk name args => visitNodeName name ++ .text ['('] :: (visitNodeArgs level args ++ [.text [')']])
  termination_by structural node => node

def visitNodeArgs (level : Int) : NodeArgs → List Write
  | .listArgs list =>
    printNodeArgs (level + 1) list ++ whenPretty pretty (if list.isEmpty then [] else [.endl level])
  | .literalArgs literal => visitLiteral literal
  termination_by structural args => args

/-- The loop of `print` over the arguments; `level` is one more than outside. -/
def printNodeArgs (level : Int) : List NodeArg → List Write
  | [] => []
  | arg :: list => whenPretty pretty [.endl level] ++ (visitNodeArg level arg ++ printNodeArgs level list)
  termination_by structural list => list

def visitNodeArg (level : Int) : NodeArg → List Write
  | .mk name value => visitArgName pretty name ++ visitArgValue level value
  termination_by structural arg => arg

def visitArgValue (level : Int) : ArgValue → List Write
  | .nodeValue node => visitTreeNode level node
  | .listValue list => visitNodeList level list
  | .literalValue literal => visitLiteral literal
  termination_by structural value => value

def visitNodeList (level : Int) : NodeList → List Write
  | .mk base elems =>
    .text "list<".toList :: (visitNodeName base ++ .text (if pretty then "> [".toList else ">[".toList) ::
      (printListElems (level + 1) elems ++
        (whenPretty pretty (if elems.isEmpty then [] else [.endl level]) ++ [.text [']']])))
  termination_by structural list => list

/-- The loop of `print` over the elements. -/
def printListElems (level : Int) : List ListElem → List Write
  | [] => []
  | elem :: elems => whenPretty pretty [.endl level] ++ (visitListElem level elem ++ printListElems level elems)
  termination_by structural elems => elems

def visitListElem (level : Int) : ListElem → List Write
  | .mk index node => printIndex pretty index ++ visitTreeNode level node
  termination_by structural elem => elem

end

def print (dots : Bool) (tree : Tree) : List Char := output dots (visitTreeNode pretty 0 tree.root) ++ [newline]

end Source

/-! With `indent_dots` off, the text is that of the printers without options. -/

section Plain
variable {v w : List Write}

@[simp] theorem output_nil (dots : Bool) : output dots [] = [] := rfl

@[simp] theorem output_text (dots : Bool) (w : List Char) (v : List Write) : output dots (.text w :: v) = w ++ output dots v := rfl

@[simp] theorem output_endl (dots : Bool) (level : Int) (v : List Write) :
    output dots (.endl level :: v) = dotsEndlPrint dots level ++ output dots v := rfl

@[simp] theorem output_append (dots : Bool) (v w : List Write) : output dots (v ++ w) = output dots v ++ output dots w :=
  List.flatMap_append

@[simp] theorem dotsEndlPrint_plain (level : Int) : dotsEndlPrint false level = dotsEndl level := rfl

@[simp] theorem output_attr (level : Int) (name : CStr) : output false (attr true level name) = AstPrinter.attr level name := by
  simp [attr, AstPrinter.attr]

@[simp] theorem output_elemWrites (level : Int) (k : Nat) :
    output false (elemWrites true level k) = AstPrinter.elemText level k := by
  simp [elemWrites, AstPrinter.elemText]

@[simp] theorem output_listWrites (level : Int) (base : CStr) (empty : Bool) (elems : List Write) :
    output false (listWrites level base empty elems) = AstPrinter.listText level base empty (output false elems) := by
  cases empty <;> simp [listWrites, AstPrinter.listText]

@[simp] theorem output_fieldsNode (level : Int) (name : CStr) (fields : List Write) :
    output false (fieldsNode level name fields) = AstPrinter.fieldsNode level name (output false fields) := by
  simp [fieldsNode, AstPrinter.fieldsNode]

@[simp] theorem output_textNode (dots : Bool) (name str : CStr) : output dots (textNode name str) = AstPrinter.textNode name str :=
  List.append_nil _

mutual

theorem visitTreeNode_plain (level : Int) : (arg : TreeNode) →
    output false (visitTreeNode true level arg) = AstPrinter.visitTreeNode level arg
  | .mk name args => by
    simp [visitTreeNode, AstPrinter.visitTreeNode, visitNodeName, AstPrinter.visitNodeName, visitNodeArgs_plain (level + 1) args]
  termination_by structural arg => arg

theorem visitNodeArgs_plain (level : Int) : (arg : NodeArgs) →
    output false (visitNodeArgs true level arg) = AstPrinter.visitNodeArgs level arg
  | .listArgs list => by
    simp [visitNodeArgs, AstPrinter.visitNodeArgs, printNodeArgs_plain (level + 1) 0 list]
  | .literalArgs literal => by
    simp [visitNodeArgs, AstPrinter.visitNodeArgs, visitLiteral, AstPrinter.visitLiteral]
  termination_by structural arg => arg

theorem printNodeArgs_plain (level : Int) (k : Nat) : (list : List NodeArg) →
    output false (printNodeArgs true level k list) = AstPrinter.printNodeArgs level k list
  | [] => rfl
  | arg :: list => by
    simp [printNodeArgs, AstPrinter.printNodeArgs, visitNodeArg_plain (level + 1) arg, printNodeArgs_plain level (k + 1) list]
  termination_by structural list => list

theorem visitNodeArg_plain (level : Int) : (arg : NodeArg) →
    output false (visitNodeArg true level arg) = AstPrinter.visitNodeArg level arg
  | .mk name value => by
    simp [visitNodeArg, AstPrinter.visitNodeArg, visitArgName, AstPrinter.visitArgName, visitArgValue_plain (level + 1) value]
  termination_by structural arg => arg

theorem visitArgValue_plain (level : Int) : (arg : ArgValue) →
    output false (visitArgValue true level arg) = AstPrinter.visitArgValue level arg
  | .nodeValue node => by
    simp [visitArgValue, AstPrinter.visitArgValue, visitTreeNode_plain (level + 1) node]
  | .listValue list => by
    simp [visitArgValue, AstPrinter.visitArgValue, visitNodeList_plain (level + 1) list]
  | .literalValue literal => by
    simp [visitArgValue, AstPrinter.visitArgValue, visitLiteral, AstPrinter.visitLiteral]
  termination_by structural arg => arg

theorem visitNodeList_plain (level : Int) : (arg : NodeList) →
    output false (visitNodeList true level arg) = AstPrinter.visitNodeList level arg
  | .mk base elems => by
    simp [visitNodeList, AstPrinter.visitNodeList, visitNodeName, AstPrinter.visitNodeName,
      printListElems_plain (level + 1) 0 elems]
  termination_by structural arg => arg

theorem printListElems_plain (level : Int) (k : Nat) : (elems : List ListElem) →
    output false (printListElems true level k elems) = AstPrinter.printListElems level k elems
  | [] => rfl
  | elem :: elems => by
    simp [printListElems, AstPrinter.printListElems, visitListElem_plain (level + 1) elem,
      printListElems_plain level (k + 1) elems]
  termination_by structural elems => elems

theorem visitListElem_plain (level : Int) : (arg : ListElem) →
    output false (visitListElem true level arg) = AstPrinter.visitListElem level arg
  | .mk index node => by
    simp [visitListElem, AstPrinter.visitListElem, typeIndex, visitTreeNode_plain (level + 1) node]
  termination_by structural arg => arg

end

theorem visitTree_plain (level : Int) (tree : Tree) : output false (visitTree true level tree) = AstPrinter.visitTree level tree := by
  simp [visitTree, AstPrinter.visitTree, visitTreeNode_plain (level + 1) tree.root]

end Plain

namespace Source
variable (pretty : Bool)

@[simp] theorem output_whenPretty (dots : Bool) (writes : List Write) :
    output dots (whenPretty pretty writes) = SourcePrinter.whenPretty pretty (output dots writes) := by
  cases pretty <;> rfl

theorem output_closing (empty : Bool) (level : Int) :
    output false (if empty then [] else [.endl level]) = if empty then [] else dotsEndl level := by
  cases empty <;> simp

mutual

theorem visitTreeNode_plain (level : Int) : (node : TreeNode) →
    output false (visitTreeNode pretty level node) = SourcePrinter.visitTreeNode pretty level node
  | .mk name args => by
    simp [visitTreeNode, SourcePrinter.visitTreeNode, visitNodeName, visitNodeArgs_plain level args]
  termination_by structural node => node

theorem visitNodeArgs_plain (level : Int) : (args : NodeArgs) →
    output false (visitNodeArgs pretty level args) = SourcePrinter.visitNodeArgs pretty level args
  | .listArgs list => by
    rw [visitNodeArgs, SourcePrinter.visitNodeArgs, output_append, printNodeArgs_plain (level + 1) list, output_whenPretty,
      output_closing]
  | .literalArgs literal => by
    simp [visitNodeArgs, SourcePrinter.visitNodeArgs, visitLiteral]
  termination_by structural args => args

theorem printNodeArgs_plain (level : Int) : (list : List NodeArg) →
    output false (printNodeArgs pretty level list) = SourcePrinter.printNodeArgs pretty level list
  | [] => rfl
  | arg :: list => by
    simp [printNodeArgs, SourcePrinter.printNodeArgs, visitNodeArg_plain level arg, printNodeArgs_plain level list]
  termination_by structural list => list

theorem visitNodeArg_plain (level : Int) : (arg : NodeArg) →
    output false (visitNodeArg pretty level arg) = SourcePrinter.visitNodeArg pretty level arg
  | .mk name value => by
    simp [visitNodeArg, SourcePrinter.visitNodeArg, visitArgName, visitArgValue_plain level value]
  termination_by structural arg => arg

theorem visitArgValue_plain (level : Int) : (value : ArgValue) →
    output false (visitArgValue pretty level value) = SourcePrinter.visitArgValue pretty level value
  | .nodeValue node => by
    rw [visitArgValue, SourcePrinter.visitArgValue, visitTreeNode_plain level node]
  | .listValue list => by
    rw [visitArgValue, SourcePrinter.visitArgValue, visitNodeList_plain level list]
  | .literalValue literal => by
    simp [visitArgValue, SourcePrinter.visitArgValue, visitLiteral]
  termination_by structural value => value

theorem visitNodeList_plain (level : Int) : (list : NodeList) →
    output false (visitNodeList pretty level list) = SourcePrinter.visitNodeList pretty level list
  | .mk base elems => by
    rw [visitNodeList, SourcePrinter.visitNodeList]
    simp only [output_text, output_append, output_whenPretty, output_closing, visitNodeName, output_nil,
      printListElems_plain (level + 1) elems, List.append_nil]
  termination_by structural list => list

theorem printListElems_plain (level : Int) : (elems : List ListElem) →
    output false (printListElems pretty level elems) = SourcePrinter.printListElems pretty level elems
  | [] => rfl
  | elem :: elems => by
    simp [printListElems, SourcePrinter.printListElems, visitListElem_plain level elem, printListElems_plain level elems]
  termination_by structural elems => elems

theorem visitListElem_plain (level : Int) : (elem : ListElem) →
    output false (visitListElem pretty level elem) = SourcePrinter.visitListElem pretty level elem
  | .mk index node => by
    simp [visitListElem, SourcePrinter.visitListElem, printIndex, visitTreeNode_plain level node]
  termination_by structural elem => elem

end

theorem print_plain (tree : Tree) : print pretty false tree = SourcePrinter.print pretty tree := by
  rw [print, visitTreeNode_plain, SourcePrinter.print]

end Source

end BasicPrinter

/-- `Printer::print`. -/
def Printer.print (dots : Bool) (tree : Tree) : List Char := BasicPrinter.print true dots tree

/-- `Dumper::print`. -/
def Dumper.print (dots : Bool) (tree : Tree) : List Char := BasicPrinter.print false dots tree

theorem Printer.print_plain (tree : Tree) : Printer.print false tree = AstPrinter.print tree := by
  rw [Printer.print, BasicPrinter.print, BasicPrinter.visitTree_plain, AstPrinter.print]

end CxxpyTree
