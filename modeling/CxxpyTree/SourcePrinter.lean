import CxxpyTree.TreeAst
import Mathlib.Algebra.Group.Int.Defs

/-! `SourcePrinter` of tree/printer.cpp with `indent_dots` off. `level` is `indent_level`. -/

namespace CxxpyTree

def decimalText (n : Nat) : CStr := Nat.toDigits 10 n

/-- `DotsEndlPrint`: the loop counts a `short` down to zero, modulo `2 ^ 16`. -/
def dotsEndl (level : Int) : List Char := newline :: (List.replicate (level % 2 ^ 16).toNat "    ".toList).flatten

namespace SourcePrinter

variable (pretty : Bool)

/-- The text that only the pretty layout has. -/
def whenPretty (text : List Char) : List Char := if pretty then text else []

def visitLiteral (literal : Literal) : List Char := '\'' :: (literal.str ++ ['\''])

def visitNodeName (name : NodeName) : List Char := name.ident

def visitArgName (name : ArgName) : List Char :=
  '.' :: (name.str ++ if pretty then " = ".toList else "=".toList)

def printIndex (idx : UInt8) : List Char :=
  '[' :: (decimalText idx.toNat ++ if pretty then "] = ".toList else "]=".toList)

mutual

def visitTreeNode (level : Int) : TreeNode → List Char
  | .mk name args => visitNodeName name ++ '(' :: (visitNodeArgs level args ++ [')'])
  termination_by structural node => node

def visitNodeArgs (level : Int) : NodeArgs → List Char
  | .listArgs list =>
    printNodeArgs (level + 1) list ++ whenPretty pretty (if list.isEmpty then [] else dotsEndl level)
  | .literalArgs literal => visitLiteral literal
  termination_by structural args => args

/-- The loop of `print` over the arguments; `level` is one more than outside. -/
def printNodeArgs (level : Int) : List NodeArg → List Char
  | [] => []
  | arg :: list => whenPretty pretty (dotsEndl level) ++ (visitNodeArg level arg ++ printNodeArgs level list)
  termination_by structural list => list

def visitNodeArg (level : Int) : NodeArg → List Char
  | .mk name value => visitArgName pretty name ++ visitArgValue level value
  termination_by structural arg => arg

def visitArgValue (level : Int) : ArgValue → List Char
  | .nodeValue node => visitTreeNode level node
  | .listValue list => visitNodeList level list
  | .literalValue literal => visitLiteral literal
  termination_by structural value => value

def visitNodeList (level : Int) : NodeList → List Char
  | .mk base elems =>
    "list<".toList ++ (visitNodeName base ++ ((if pretty then "> [".toList else ">[".toList) ++
      (printListElems (level + 1) elems ++
        (whenPretty pretty (if elems.isEmpty then [] else dotsEndl level) ++ [']']))))
  termination_by structural list => list

/-- The loop of `print` over the elements. -/
def printListElems (level : Int) : List ListElem → List Char
  | [] => []
  | elem :: elems => whenPretty pretty (dotsEndl level) ++ (visitListElem level elem ++ printListElems level elems)
  termination_by structural elems => elems

def visitListElem (level : Int) : ListElem → List Char
  | .mk index node => printIndex pretty index ++ visitTreeNode level node
  termination_by structural elem => elem

end

/-! The pretty layout has a blank in three places. -/

theorem visitArgName_eq (name : ArgName) : visitArgName pretty name =
    '.' :: (name.str ++ (whenPretty pretty [' '] ++ '=' :: whenPretty pretty [' '])) := by
  cases pretty <;> rfl

theorem printIndex_eq (idx : UInt8) : printIndex pretty idx =
    '[' :: (decimalText idx.toNat ++ ']' :: (whenPretty pretty [' '] ++ '=' :: whenPretty pretty [' '])) := by
  cases pretty <;> rfl

theorem visitNodeList_eq (level : Int) (base : NodeName) (elems : List ListElem) :
    visitNodeList pretty level (.mk base elems) =
      "list".toList ++ '<' :: (visitNodeName base ++ '>' :: (whenPretty pretty [' '] ++ '[' ::
        (printListElems pretty (level + 1) elems ++
          (whenPretty pretty (if elems.isEmpty then [] else dotsEndl level) ++ [']'])))) := by
  cases pretty <;> rfl

/-- `print(ast)`: `indent_level` starts at -1 and one `Level` is entered for the root. -/
def print (tree : Tree) : List Char := visitTreeNode pretty 0 tree.root ++ [newline]

end SourcePrinter

end CxxpyTree
