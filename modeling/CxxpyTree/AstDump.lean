import CxxpyTree.AstPrinter
import CxxpyTree.SourceRoundTrip

/-! The text and the tokens of a dumped node. -/

namespace CxxpyTree

/-! The text printed for a dumped node. -/

mutual

def Dump.print (level : Int) : Dump → List Char
  | .text type str => AstPrinter.textNode type str
  | .fields type fields => AstPrinter.fieldsNode level type (printDumpFields level fields)
  termination_by structural node => node

def printDumpFields (level : Int) : List DumpField → List Char
  | [] => []
  | field :: fields => field.print level ++ printDumpFields level fields
  termination_by structural fields => fields

def DumpField.print (level : Int) : DumpField → List Char
  | .text name str => AstPrinter.attr level name ++ AstPrinter.repr str
  | .node name node => AstPrinter.attr level name ++ node.print (level + 1)
  | .list name base elems => AstPrinter.attr level name ++
      AstPrinter.listText (level + 1) base elems.isEmpty (printDumpElems (level + 1) 0 elems)
  termination_by structural field => field

def printDumpElems (level : Int) (k : Nat) : List Dump → List Char
  | [] => []
  | elem :: elems => AstPrinter.elemText level k ++ elem.print (level + 1) ++ printDumpElems level (k + 1) elems
  termination_by structural elems => elems

end

section Printed
variable (level : Int)

theorem Literal.print_dump (arg : Literal) : arg.dump.print level = AstPrinter.visitLiteral arg := by
  rw [Literal.dump, Dump.print, AstPrinter.visitLiteral]

theorem NodeName.print_dump (arg : NodeName) : arg.dump.print level = AstPrinter.visitNodeName arg := by
  rw [NodeName.dump, Dump.print, AstPrinter.visitNodeName]

theorem ArgName.print_dump (arg : ArgName) : arg.dump.print level = AstPrinter.visitArgName arg := by
  rw [ArgName.dump, Dump.print, AstPrinter.visitArgName]

theorem nodeArgListDump_isEmpty (list : List NodeArg) : (nodeArgListDump list).isEmpty = list.isEmpty := by
  cases list <;> rw [nodeArgListDump] <;> rfl

theorem listElemsDump_isEmpty (elems : List ListElem) : (listElemsDump elems).isEmpty = elems.isEmpty := by
  cases elems <;> rw [listElemsDump] <;> rfl

mutual

theorem TreeNode.print_dump (level : Int) : (arg : TreeNode) → arg.dump.print level = AstPrinter.visitTreeNode level arg
  | .mk name args => by
    simp only [TreeNode.dump, Dump.print, printDumpFields, DumpField.print, AstPrinter.visitTreeNode, name.print_dump,
      args.print_dump (level + 1), List.append_assoc, List.append_nil]
  termination_by structural arg => arg

theorem NodeArgs.print_dump (level : Int) : (arg : NodeArgs) → arg.dump.print level = AstPrinter.visitNodeArgs level arg
  | .listArgs list => by
    simp only [NodeArgs.dump, Dump.print, printDumpFields, DumpField.print, AstPrinter.visitNodeArgs,
      nodeArgList_print_dump (level + 1) 0 list, nodeArgListDump_isEmpty, List.append_nil]
  | .literalArgs literal => by
    simp only [NodeArgs.dump, Dump.print, printDumpFields, DumpField.print, AstPrinter.visitNodeArgs,
      literal.print_dump, List.append_nil]
  termination_by structural arg => arg

theorem nodeArgList_print_dump (level : Int) (k : Nat) : (list : List NodeArg) →
    printDumpElems level k (nodeArgListDump list) = AstPrinter.printNodeArgs level k list
  | [] => by rw [nodeArgListDump, printDumpElems, AstPrinter.printNodeArgs]
  | arg :: list => by
    rw [nodeArgListDump, printDumpElems, AstPrinter.printNodeArgs, arg.print_dump (level + 1),
      nodeArgList_print_dump level (k + 1) list]
  termination_by structural list => list

theorem NodeArg.print_dump (level : Int) : (arg : NodeArg) → arg.dump.print level = AstPrinter.visitNodeArg level arg
  | .mk name value => by
    simp only [NodeArg.dump, Dump.print, printDumpFields, DumpField.print, AstPrinter.visitNodeArg, name.print_dump,
      value.print_dump (level + 1), List.append_assoc, List.append_nil]
  termination_by structural arg => arg

theorem ArgValue.print_dump (level : Int) : (arg : ArgValue) → arg.dump.print level = AstPrinter.visitArgValue level arg
  | .nodeValue node => by
    simp only [ArgValue.dump, Dump.print, printDumpFields, DumpField.print, AstPrinter.visitArgValue,
      node.print_dump (level + 1), List.append_nil]
  | .listValue list => by
    simp only [ArgValue.dump, Dump.print, printDumpFields, DumpField.print, AstPrinter.visitArgValue,
      list.print_dump (level + 1), List.append_nil]
  | .literalValue literal => by
    simp only [ArgValue.dump, Dump.print, printDumpFields, DumpField.print, AstPrinter.visitArgValue,
      literal.print_dump, List.append_nil]
  termination_by structural arg => arg

theorem NodeList.print_dump (level : Int) : (arg : NodeList) → arg.dump.print level = AstPrinter.visitNodeList level arg
  | .mk base elems => by
    simp only [NodeList.dump, Dump.print, printDumpFields, DumpField.print, AstPrinter.visitNodeList, base.print_dump,
      listElems_print_dump (level + 1) 0 elems, listElemsDump_isEmpty, List.append_assoc, List.append_nil]
  termination_by structural arg => arg

theorem listElems_print_dump (level : Int) (k : Nat) : (elems : List ListElem) →
    printDumpElems level k (listElemsDump elems) = AstPrinter.printListElems level k elems
  | [] => by rw [listElemsDump, printDumpElems, AstPrinter.printListElems]
  | elem :: elems => by
    rw [listElemsDump, printDumpElems, AstPrinter.printListElems, elem.print_dump (level + 1),
      listElems_print_dump level (k + 1) elems]
  termination_by structural elems => elems

theorem ListElem.print_dump (level : Int) : (arg : ListElem) → arg.dump.print level = AstPrinter.visitListElem level arg
  | .mk index node => by
    simp only [ListElem.dump, Dump.print, printDumpFields, DumpField.print, AstPrinter.visitListElem,
      AstPrinter.typeIndex, node.print_dump (level + 1), List.append_assoc, List.append_nil]
  termination_by structural arg => arg

end

/-- `Printer` prints the dumped nodes. -/
theorem Tree.print_dump (tree : Tree) : AstPrinter.print tree = tree.dump.print 0 ++ [newline] := by
  simp only [AstPrinter.print, AstPrinter.visitTree, Tree.dump, Dump.print, printDumpFields, DumpField.print,
    tree.root.print_dump (0 + 1), List.append_nil]

end Printed

/-! The tokens of a dumped node, with `index k` for the index of element `k` of a list. -/

mutual

def Dump.leaves (index : Nat → Leaf) : Dump → List Leaf
  | .text type str => [.lexeme .ident type, .token .openParen, .lexeme .str str, .token .closeParen]
  | .fields type fields =>
    .lexeme .ident type :: .token .openParen :: (dumpFieldsLeaves index fields ++ [.token .closeParen])
  termination_by structural node => node

def dumpFieldsLeaves (index : Nat → Leaf) : List DumpField → List Leaf
  | [] => []
  | field :: fields => field.leaves index ++ dumpFieldsLeaves index fields
  termination_by structural fields => fields

def DumpField.leaves (index : Nat → Leaf) : DumpField → List Leaf
  | .text name str => [.token .dot, .lexeme .name name, .token .equal, .lexeme .str str]
  | .node name node => .token .dot :: .lexeme .name name :: .token .equal :: node.leaves index
  | .list name base elems =>
    .token .dot :: .lexeme .name name :: .token .equal :: .token .kwList :: .token .openAngbrk :: .lexeme .ident base ::
      .token .closeAngbrk :: .token .openSqbrk :: (dumpElemsLeaves index 0 elems ++ [.token .closeSqbrk])
  termination_by structural field => field

def dumpElemsLeaves (index : Nat → Leaf) (k : Nat) : List Dump → List Leaf
  | [] => []
  | elem :: elems =>
    .token .openSqbrk :: index k :: .token .closeSqbrk :: .token .equal ::
      (elem.leaves index ++ dumpElemsLeaves index (k + 1) elems)
  termination_by structural elems => elems

end

/-- The index as the tree has it. -/
def byteIndex (k : Nat) : Leaf := .index (UInt8.ofNat k)

/-- The index as the printer writes it. -/
def printedIndex (k : Nat) : Leaf := .lexeme .num (decimalText k)

mutual

theorem Dump.toTree_leaves : (node : Dump) → node.toTree.leaves = node.leaves byteIndex
  | .text type str => by
    simp only [Dump.toTree, TreeNode.leaves, NodeName.leaves, NodeArgs.leaves, Literal.leaves, Dump.leaves,
      List.cons_append, List.nil_append]
  | .fields type fields => by
    simp only [Dump.toTree, TreeNode.leaves, NodeName.leaves, NodeArgs.leaves, Dump.leaves,
      dumpFieldsToTree_leaves fields, List.cons_append, List.nil_append]
  termination_by structural node => node

theorem dumpFieldsToTree_leaves : (fields : List DumpField) →
    nodeArgListLeaves (dumpFieldsToTree fields) = dumpFieldsLeaves byteIndex fields
  | [] => by rw [dumpFieldsToTree, nodeArgListLeaves, dumpFieldsLeaves]
  | field :: fields => by
    rw [dumpFieldsToTree, nodeArgListLeaves, dumpFieldsLeaves, field.toTree_leaves, dumpFieldsToTree_leaves fields]
  termination_by structural fields => fields

theorem DumpField.toTree_leaves : (field : DumpField) → field.toTree.leaves = field.leaves byteIndex
  | .text name str => by
    simp only [DumpField.toTree, NodeArg.leaves, ArgName.leaves, ArgValue.leaves, Literal.leaves, DumpField.leaves,
      List.cons_append, List.nil_append]
  | .node name node => by
    simp only [DumpField.toTree, NodeArg.leaves, ArgName.leaves, ArgValue.leaves, DumpField.leaves, node.toTree_leaves,
      List.cons_append, List.nil_append]
  | .list name base elems => by
    simp only [DumpField.toTree, NodeArg.leaves, ArgName.leaves, ArgValue.leaves, NodeList.leaves, NodeName.leaves,
      DumpField.leaves, dumpElemsToTree_leaves 0 elems, List.cons_append, List.nil_append]
  termination_by structural field => field

theorem dumpElemsToTree_leaves (k : Nat) : (elems : List Dump) →
    listElemsLeaves (dumpElemsToTree k elems) = dumpElemsLeaves byteIndex k elems
  | [] => by rw [dumpElemsToTree, listElemsLeaves, dumpElemsLeaves]
  | elem :: elems => by
    simp only [dumpElemsToTree, listElemsLeaves, ListElem.leaves, dumpElemsLeaves, elem.toTree_leaves,
      dumpElemsToTree_leaves (k + 1) elems, byteIndex, List.cons_append, List.nil_append]
  termination_by structural elems => elems

end

section Shown
variable {leaves : List Leaf} {text : List Char}

theorem Shows.dotsEndl {argCtxt : Bool} (level : Int) (rest : Shows argCtxt leaves text) :
    Shows argCtxt leaves (dotsEndl level ++ text) := rest.layout true level

theorem Shows.printedIndex (k : Nat) (ends : ∀ c ∈ text.head?, isdigit c = false) (rest : Shows false leaves text) :
    Shows false (printedIndex k :: leaves) (decimalText k ++ text) := by
  apply Shows.leaf (.number (decimalText_numeral k)) (decimalText_free k) ends _ rest
  exact fun pos => ⟨rfl, cstr_of_nul_free (decimalText_free k)⟩

/-- `.name = ` in front of a value. -/
theorem Shows.attr {name : CStr} (level : Int) (printable : (Leaf.lexeme .name name).Printable)
    (rest : Shows false leaves text) :
    Shows false (.token .dot :: .lexeme .name name :: .token .equal :: leaves) (AstPrinter.attr level name ++ text) := by
  simp only [AstPrinter.attr, List.append_assoc, List.cons_append]
  apply Shows.dotsEndl
  apply Shows.punct rfl
  apply Shows.name printable (head_free rfl)
  exact .space (by decide) (.punct rfl (.space (by decide) rest))

mutual

theorem Dump.shows (level : Int) : (node : Dump) → ∀ {leaves text}, Printable (node.leaves CxxpyTree.printedIndex) →
    Shows false leaves text →
    Shows false (node.leaves CxxpyTree.printedIndex ++ leaves) (node.print level ++ text)
  | .text type str, leaves, text, printable, rest => by
    simp only [Dump.leaves, printable_cons] at printable
    obtain ⟨isType, -, isText, -⟩ := printable
    simp only [Dump.leaves, Dump.print, AstPrinter.textNode, AstPrinter.repr, List.append_assoc, List.cons_append,
      List.nil_append]
    apply Shows.ident isType (head_free rfl)
    apply Shows.punct rfl
    exact .str isText (.punct rfl rest)
  | .fields type fields, leaves, text, printable, rest => by
    simp only [Dump.leaves, printable_cons, printable_append] at printable
    obtain ⟨isType, -, areFields, -⟩ := printable
    simp only [Dump.leaves, Dump.print, AstPrinter.fieldsNode, List.append_assoc, List.cons_append, List.nil_append]
    apply Shows.ident isType (head_free rfl)
    apply Shows.punct rfl
    apply dumpFields_shows level fields areFields
    exact .dotsEndl level (.punct rfl rest)
  termination_by structural node => node

theorem dumpFields_shows (level : Int) : (fields : List DumpField) → ∀ {leaves text},
    Printable (dumpFieldsLeaves CxxpyTree.printedIndex fields) → Shows false leaves text →
    Shows false (dumpFieldsLeaves CxxpyTree.printedIndex fields ++ leaves) (printDumpFields level fields ++ text)
  | [], _, _, _, rest => rest
  | field :: fields, leaves, text, printable, rest => by
    obtain ⟨first, later⟩ := printable_append.mp printable
    simp only [dumpFieldsLeaves, printDumpFields, List.append_assoc]
    exact field.shows level first (dumpFields_shows level fields later rest)
  termination_by structural fields => fields

theorem DumpField.shows (level : Int) : (field : DumpField) → ∀ {leaves text},
    Printable (field.leaves CxxpyTree.printedIndex) → Shows false leaves text →
    Shows false (field.leaves CxxpyTree.printedIndex ++ leaves) (field.print level ++ text)
  | .text name str, leaves, text, printable, rest => by
    simp only [DumpField.leaves, printable_cons] at printable
    obtain ⟨-, isName, -, isText, -⟩ := printable
    simp only [DumpField.leaves, DumpField.print, AstPrinter.repr, List.append_assoc, List.cons_append,
      List.nil_append]
    exact .attr level isName (.str isText rest)
  | .node name node, leaves, text, printable, rest => by
    simp only [DumpField.leaves, printable_cons] at printable
    obtain ⟨-, isName, -, isNode⟩ := printable
    simp only [DumpField.leaves, DumpField.print, List.append_assoc, List.cons_append]
    exact .attr level isName (node.shows (level + 1) isNode rest)
  | .list name base elems, leaves, text, printable, rest => by
    simp only [DumpField.leaves, printable_cons, printable_append] at printable
    obtain ⟨-, isName, -, -, -, isBase, -, -, areElems, -⟩ := printable
    have closed : Shows false (.token .closeSqbrk :: leaves) (']' :: text) := .punct rfl rest
    have last := closed.closing true elems.isEmpty (level + 1)
    simp only [DumpField.leaves, DumpField.print, AstPrinter.listText_eq, List.append_assoc, List.cons_append,
      List.nil_append]
    apply Shows.attr level isName
    apply Shows.list (head_free rfl)
    apply Shows.punct rfl
    apply Shows.ident isBase (head_free rfl)
    apply Shows.punct rfl
    apply Shows.space (by decide)
    apply Shows.punct rfl
    exact dumpElems_shows (level + 1) 0 elems areElems last
  termination_by structural field => field

theorem dumpElems_shows (level : Int) (k : Nat) : (elems : List Dump) → ∀ {leaves text},
    Printable (dumpElemsLeaves CxxpyTree.printedIndex k elems) → Shows false leaves text →
    Shows false (dumpElemsLeaves CxxpyTree.printedIndex k elems ++ leaves) (printDumpElems level k elems ++ text)
  | [], _, _, _, rest => rest
  | elem :: elems, leaves, text, printable, rest => by
    simp only [dumpElemsLeaves, printable_cons, printable_append] at printable
    obtain ⟨-, -, -, -, first, later⟩ := printable
    simp only [dumpElemsLeaves, printDumpElems, AstPrinter.elemText, List.append_assoc, List.cons_append]
    apply Shows.dotsEndl
    apply Shows.punct rfl
    apply Shows.printedIndex k (head_free rfl)
    apply Shows.punct rfl
    apply Shows.space (by decide)
    apply Shows.punct rfl
    apply Shows.space (by decide)
    exact elem.shows (level + 1) first (dumpElems_shows level (k + 1) elems later rest)
  termination_by structural elems => elems

end

end Shown

end CxxpyTree
