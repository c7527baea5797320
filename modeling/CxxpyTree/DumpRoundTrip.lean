import CxxpyTree.AstDump
import CxxpyTree.LeafOrder

/-! The dump of a syntax tree is parsed as the tree that encodes it, as long as an index can count
the entries of its lists. -/

namespace CxxpyTree

/-! An index counts the entries of every list. -/

mutual

def Dump.Counted : Dump → Prop
  | .text _ _ => True
  | .fields _ fields => DumpFieldsCounted fields
  termination_by structural node => node

def DumpFieldsCounted : List DumpField → Prop
  | [] => True
  | field :: fields => field.Counted ∧ DumpFieldsCounted fields
  termination_by structural fields => fields

def DumpField.Counted : DumpField → Prop
  | .text _ _ => True
  | .node _ node => node.Counted
  | .list _ _ elems => elems.length ≤ 256 ∧ DumpElemsCounted elems
  termination_by structural field => field

def DumpElemsCounted : List Dump → Prop
  | [] => True
  | elem :: elems => elem.Counted ∧ DumpElemsCounted elems
  termination_by structural elems => elems

end

section Counting
variable {R : Leaf → Leaf → Prop} {index index' : Nat → Leaf}

section Related
variable (same : ∀ leaf, R leaf leaf) (related : ∀ k, k < 256 → R (index k) (index' k))
include same related

set_option linter.unusedSectionVars false in
mutual

theorem Dump.leaves_related : (node : Dump) → node.Counted → List.Forall₂ R (node.leaves index) (node.leaves index')
  | .text type str, _ => by
    rw [Dump.leaves, Dump.leaves]
    exact List.forall₂_same.mpr fun leaf _ => same leaf
  | .fields type fields, counted => by
    rw [Dump.leaves, Dump.leaves]
    have inner := dumpFieldsLeaves_related fields counted
    exact .cons (same _) (.cons (same _) (List.rel_append inner (.cons (same _) .nil)))
  termination_by structural node => node

theorem dumpFieldsLeaves_related : (fields : List DumpField) → DumpFieldsCounted fields →
    List.Forall₂ R (dumpFieldsLeaves index fields) (dumpFieldsLeaves index' fields)
  | [], _ => .nil
  | field :: fields, counted => by
    rw [dumpFieldsLeaves, dumpFieldsLeaves]
    exact List.rel_append (field.leaves_related counted.1) (dumpFieldsLeaves_related fields counted.2)
  termination_by structural fields => fields

theorem DumpField.leaves_related : (field : DumpField) → field.Counted →
    List.Forall₂ R (field.leaves index) (field.leaves index')
  | .text name str, _ => by
    rw [DumpField.leaves, DumpField.leaves]
    exact List.forall₂_same.mpr fun leaf _ => same leaf
  | .node name node, counted => by
    rw [DumpField.leaves, DumpField.leaves]
    exact .cons (same _) (.cons (same _) (.cons (same _) (node.leaves_related counted)))
  | .list name base elems, counted => by
    rw [DumpField.leaves, DumpField.leaves]
    have inner := dumpElemsLeaves_related 0 elems (by simpa using counted.1) counted.2
    have closed := List.rel_append inner (.cons (same (.token .closeSqbrk)) .nil)
    exact .cons (same _) (.cons (same _) (.cons (same _) (.cons (same _) (.cons (same _) (.cons (same _)
      (.cons (same _) (.cons (same _) closed)))))))
  termination_by structural field => field

theorem dumpElemsLeaves_related (k : Nat) : (elems : List Dump) → k + elems.length ≤ 256 → DumpElemsCounted elems →
    List.Forall₂ R (dumpElemsLeaves index k elems) (dumpElemsLeaves index' k elems)
  | [], _, _ => .nil
  | elem :: elems, within, counted => by
    rw [dumpElemsLeaves, dumpElemsLeaves]
    rw [List.length_cons] at within
    have first := elem.leaves_related counted.1
    have later := dumpElemsLeaves_related (k + 1) elems (by omega) counted.2
    exact .cons (same _) (.cons (related k (by omega)) (.cons (same _) (.cons (same _) (List.rel_append first later))))
  termination_by structural elems => elems

end

end Related

/-! When only small indexes occur among the tokens, every list is counted. -/

set_option linter.unusedSectionVars false in
mutual

theorem Dump.counted_of_small : (node : Dump) → (∀ k, index k ∈ node.leaves index → k < 256) → node.Counted
  | .text _ _, _ => trivial
  | .fields type fields, small => by
    apply dumpFields_counted_of_small fields
    intro k member
    apply small k
    rw [Dump.leaves]
    exact .tail _ (.tail _ (List.mem_append_left _ member))
  termination_by structural node => node

theorem dumpFields_counted_of_small : (fields : List DumpField) →
    (∀ k, index k ∈ dumpFieldsLeaves index fields → k < 256) → DumpFieldsCounted fields
  | [], _ => trivial
  | field :: fields, small => by
    rw [dumpFieldsLeaves] at small
    constructor
    · exact field.counted_of_small fun k member => small k (List.mem_append_left _ member)
    · exact dumpFields_counted_of_small fields fun k member => small k (List.mem_append_right _ member)
  termination_by structural fields => fields

theorem DumpField.counted_of_small : (field : DumpField) → (∀ k, index k ∈ field.leaves index → k < 256) → field.Counted
  | .text _ _, _ => trivial
  | .node name node, small => by
    apply node.counted_of_small
    intro k member
    apply small k
    rw [DumpField.leaves]
    exact .tail _ (.tail _ (.tail _ member))
  | .list name base elems, small => by
    have counted := dumpElems_counted_of_small 0 elems (by omega) fun k member => small k (by
      rw [DumpField.leaves]
      exact .tail _ (.tail _ (.tail _ (.tail _ (.tail _ (.tail _ (.tail _ (.tail _ (List.mem_append_left _ member)))))))))
    rw [Nat.zero_add] at counted
    exact counted
  termination_by structural field => field

theorem dumpElems_counted_of_small (k : Nat) : (elems : List Dump) → k ≤ 256 →
    (∀ i, index i ∈ dumpElemsLeaves index k elems → i < 256) → k + elems.length ≤ 256 ∧ DumpElemsCounted elems
  | [], start, _ => ⟨start, trivial⟩
  | elem :: elems, _, small => by
    rw [dumpElemsLeaves] at small
    have here := small k (.tail _ (.head _))
    have later := dumpElems_counted_of_small (k + 1) elems here fun i member =>
      small i (.tail _ (.tail _ (.tail _ (.tail _ (List.mem_append_right _ member)))))
    have first := elem.counted_of_small fun i member =>
      small i (.tail _ (.tail _ (.tail _ (.tail _ (List.mem_append_left _ member)))))
    refine ⟨?_, first, later.2⟩
    rw [List.length_cons]
    omega
  termination_by structural elems => elems

end

end Counting

/-! The lists of the dumped nodes are those of the syntax tree. -/

theorem nodeArgListDump_length (list : List NodeArg) : (nodeArgListDump list).length = list.length := by
  induction list with
  | nil => rfl
  | cons arg list ih => rw [nodeArgListDump, List.length_cons, List.length_cons, ih]

theorem listElemsDump_length (elems : List ListElem) : (listElemsDump elems).length = elems.length := by
  induction elems with
  | nil => rfl
  | cons elem elems ih => rw [listElemsDump, List.length_cons, List.length_cons, ih]

/-- No node holds a list that an index cannot count. -/
def ShortLists (nodes : List AstNode) : Prop := ∀ node ∈ nodes, node.entries ≤ 256

theorem shortLists_append {a b : List AstNode} : ShortLists (a ++ b) ↔ ShortLists a ∧ ShortLists b :=
  List.forall_mem_append

theorem shortLists_singleton {node : AstNode} : ShortLists [node] ↔ node.entries ≤ 256 := List.forall_mem_singleton

theorem NodeName.shortLists (name : NodeName) : ShortLists name.nodes := shortLists_singleton.mpr (Nat.zero_le _)

theorem ArgName.shortLists (name : ArgName) : ShortLists name.nodes := shortLists_singleton.mpr (Nat.zero_le _)

theorem Literal.shortLists (literal : Literal) : ShortLists literal.nodes := shortLists_singleton.mpr (Nat.zero_le _)

mutual

theorem TreeNode.dump_counted : (arg : TreeNode) → (arg.dump.Counted ↔ ShortLists arg.nodes)
  | .mk name args => by
    simp only [TreeNode.dump, Dump.Counted, DumpFieldsCounted, DumpField.Counted, NodeName.dump, args.dump_counted,
      TreeNode.nodes, shortLists_append, shortLists_singleton, AstNode.entries, name.shortLists]
    simp
  termination_by structural arg => arg

theorem NodeArgs.dump_counted : (arg : NodeArgs) → (arg.dump.Counted ↔ ShortLists arg.nodes)
  | .listArgs list => by
    simp only [NodeArgs.dump, Dump.Counted, DumpFieldsCounted, DumpField.Counted, nodeArgListDump_length,
      nodeArgList_dump_counted list, NodeArgs.nodes, shortLists_append, shortLists_singleton, AstNode.entries]
    rw [and_true, and_comm]
  | .literalArgs literal => by
    simp only [NodeArgs.dump, Dump.Counted, DumpFieldsCounted, DumpField.Counted, Literal.dump, NodeArgs.nodes,
      shortLists_append, shortLists_singleton, AstNode.entries, literal.shortLists]
    simp
  termination_by structural arg => arg

theorem nodeArgList_dump_counted : (list : List NodeArg) →
    (DumpElemsCounted (nodeArgListDump list) ↔ ShortLists (nodeArgListNodes list))
  | [] => by simp [nodeArgListDump, DumpElemsCounted, nodeArgListNodes, ShortLists]
  | arg :: list => by
    simp only [nodeArgListDump, DumpElemsCounted, nodeArgListNodes, shortLists_append, arg.dump_counted,
      nodeArgList_dump_counted list]
  termination_by structural list => list

theorem NodeArg.dump_counted : (arg : NodeArg) → (arg.dump.Counted ↔ ShortLists arg.nodes)
  | .mk name value => by
    simp only [NodeArg.dump, Dump.Counted, DumpFieldsCounted, DumpField.Counted, ArgName.dump, value.dump_counted,
      NodeArg.nodes, shortLists_append, shortLists_singleton, AstNode.entries, name.shortLists]
    simp
  termination_by structural arg => arg

theorem ArgValue.dump_counted : (arg : ArgValue) → (arg.dump.Counted ↔ ShortLists arg.nodes)
  | .nodeValue node => by
    simp only [ArgValue.dump, Dump.Counted, DumpFieldsCounted, DumpField.Counted, node.dump_counted, ArgValue.nodes,
      shortLists_append, shortLists_singleton, AstNode.entries]
    simp
  | .listValue list => by
    simp only [ArgValue.dump, Dump.Counted, DumpFieldsCounted, DumpField.Counted, list.dump_counted, ArgValue.nodes,
      shortLists_append, shortLists_singleton, AstNode.entries]
    simp
  | .literalValue literal => by
    simp only [ArgValue.dump, Dump.Counted, DumpFieldsCounted, DumpField.Counted, Literal.dump, ArgValue.nodes,
      shortLists_append, shortLists_singleton, AstNode.entries, literal.shortLists]
    simp
  termination_by structural arg => arg

theorem NodeList.dump_counted : (arg : NodeList) → (arg.dump.Counted ↔ ShortLists arg.nodes)
  | .mk base elems => by
    simp only [NodeList.dump, Dump.Counted, DumpFieldsCounted, DumpField.Counted, NodeName.dump, listElemsDump_length,
      listElems_dump_counted elems, NodeList.nodes, shortLists_append, shortLists_singleton, AstNode.entries,
      base.shortLists]
    rw [true_and, true_and, and_true, and_comm]
  termination_by structural arg => arg

theorem listElems_dump_counted : (elems : List ListElem) →
    (DumpElemsCounted (listElemsDump elems) ↔ ShortLists (listElemsNodes elems))
  | [] => by simp [listElemsDump, DumpElemsCounted, listElemsNodes, ShortLists]
  | elem :: elems => by
    simp only [listElemsDump, DumpElemsCounted, listElemsNodes, shortLists_append, elem.dump_counted,
      listElems_dump_counted elems]
  termination_by structural elems => elems

theorem ListElem.dump_counted : (arg : ListElem) → (arg.dump.Counted ↔ ShortLists arg.nodes)
  | .mk index node => by
    simp only [ListElem.dump, Dump.Counted, DumpFieldsCounted, DumpField.Counted, node.dump_counted, ListElem.nodes,
      shortLists_append, shortLists_singleton, AstNode.entries]
    simp
  termination_by structural arg => arg

end

theorem Tree.dump_counted (tree : Tree) : tree.dump.Counted ↔ ShortLists tree.nodes := by
  simp only [Tree.dump, Dump.Counted, DumpFieldsCounted, DumpField.Counted, tree.root.dump_counted, Tree.nodes,
    shortLists_append, shortLists_singleton, AstNode.entries]
  simp

/-! What is dumped of a tree whose leaves are printable is printable itself. -/

theorem isident_plain {c : Char} (ident : isident c = true) : isPlainChar c = true ∧ c ≠ backslash ∧ c ≠ '\'' := by
  simp only [isident, isident0, Bool.or_eq_true, isalpha_iff, isdigit_iff, beq_iff_eq] at ident
  have code : 48 ≤ c.toNat ∧ c.toNat ≤ 57 ∨ 65 ≤ c.toNat ∧ c.toNat ≤ 90 ∨ c.toNat = 95 ∨ 97 ≤ c.toNat ∧ c.toNat ≤ 122 := by
    rcases ident with (upper | rfl) | digit
    · omega
    · decide
    · omega
  refine ⟨?_, ?_, ?_⟩
  · have ascii : isascii c = true := isascii_iff.mpr (by omega)
    have printing : ¬ iscntrl c = true := fun control => by
      have := iscntrl_iff.mp control
      omega
    simp [isPlainChar, ascii, printing]
  · rintro rfl
    revert code
    decide
  · rintro rfl
    revert code
    decide

theorem literalBody_of_ident {str : CStr} (letters : ∀ c ∈ str, isident c = true) : LiteralBody '\'' str := by
  induction str with
  | nil => exact .nil
  | cons c str ih =>
    obtain ⟨first, later⟩ := List.forall_mem_cons.mp letters
    obtain ⟨plain, unescaped, other⟩ := isident_plain first
    exact .plain plain unescaped other (ih later)

theorem printable_word {str : CStr} (spelled : Item.Spelled (.word str) str) : (Leaf.lexeme .str str).Printable := by
  refine ⟨literalBody_of_ident ?_, word_free spelled⟩
  cases spelled with
  | word first later => exact List.forall_mem_cons.mpr ⟨isident0_isident first, later⟩

theorem printable_decimal (n : Nat) : (Leaf.lexeme .str (decimalText n)).Printable := by
  refine ⟨literalBody_of_ident ?_, decimalText_free n⟩
  intro c member
  rw [isident, (decimalText_numeral n).2 c member, Bool.or_true]

theorem printable_ident {c : Char} {tail : CStr}
    (capital : (isident0 c && tail.all isident && !(c :: tail).all isname) = true) :
    (Leaf.lexeme .ident (c :: tail)).Printable := by
  obtain ⟨spelled, capital⟩ := Bool.and_eq_true_iff.mp capital
  obtain ⟨first, later⟩ := Bool.and_eq_true_iff.mp spelled
  exact ⟨.word first (List.all_eq_true.mp later), Bool.not_eq_eq_eq_not.mp capital⟩

theorem printable_name {c : Char} {tail : CStr}
    (small : (isident0 c && tail.all isident && (c :: tail).all isname) = true) :
    (Leaf.lexeme .name (c :: tail)).Printable := by
  obtain ⟨spelled, small⟩ := Bool.and_eq_true_iff.mp small
  obtain ⟨first, later⟩ := Bool.and_eq_true_iff.mp spelled
  exact ⟨.word first (List.all_eq_true.mp later), small⟩

section Pieces
variable {type name base str : CStr} {node : Dump} {fields : List DumpField} {elems : List Dump}

theorem Dump.printable_text (isType : (Leaf.lexeme .ident type).Printable) (isText : (Leaf.lexeme .str str).Printable) :
    Printable ((Dump.text type str).leaves printedIndex) := by
  simp only [Dump.leaves, printable_cons]
  exact ⟨isType, trivial, isText, trivial, printable_nil⟩

theorem Dump.printable_fields (isType : (Leaf.lexeme .ident type).Printable)
    (areFields : Printable (dumpFieldsLeaves printedIndex fields)) :
    Printable ((Dump.fields type fields).leaves printedIndex) := by
  simp only [Dump.leaves, printable_cons, printable_append]
  exact ⟨isType, trivial, areFields, trivial, printable_nil⟩

theorem DumpField.printable_text (isName : (Leaf.lexeme .name name).Printable)
    (isText : (Leaf.lexeme .str str).Printable) : Printable ((DumpField.text name str).leaves printedIndex) := by
  simp only [DumpField.leaves, printable_cons]
  exact ⟨trivial, isName, trivial, isText, printable_nil⟩

theorem DumpField.printable_node (isName : (Leaf.lexeme .name name).Printable)
    (isNode : Printable (node.leaves printedIndex)) : Printable ((DumpField.node name node).leaves printedIndex) := by
  simp only [DumpField.leaves, printable_cons]
  exact ⟨trivial, isName, trivial, isNode⟩

theorem DumpField.printable_list (isName : (Leaf.lexeme .name name).Printable)
    (isBase : (Leaf.lexeme .ident base).Printable) (areElems : Printable (dumpElemsLeaves printedIndex 0 elems)) :
    Printable ((DumpField.list name base elems).leaves printedIndex) := by
  simp only [DumpField.leaves, printable_cons, printable_append]
  exact ⟨trivial, isName, trivial, trivial, trivial, isBase, trivial, trivial, areElems, trivial, printable_nil⟩

theorem printable_field {field : DumpField} (isField : Printable (field.leaves printedIndex)) :
    Printable (dumpFieldsLeaves printedIndex [field]) := by
  simp only [dumpFieldsLeaves, printable_append]
  exact ⟨isField, printable_nil⟩

theorem printable_two_fields {field field' : DumpField} (isField : Printable (field.leaves printedIndex))
    (isField' : Printable (field'.leaves printedIndex)) : Printable (dumpFieldsLeaves printedIndex [field, field']) :=
  printable_append.mpr ⟨isField, printable_field isField'⟩

theorem NodeName.dump_printable {arg : NodeName} (printable : Printable arg.leaves) :
    Printable (arg.dump.leaves printedIndex) :=
  Dump.printable_text (printable_ident rfl)
    (printable_word (printable _ (List.mem_singleton_self _)).1)

theorem ArgName.dump_printable {arg : ArgName} (printable : Printable arg.leaves) :
    Printable (arg.dump.leaves printedIndex) :=
  Dump.printable_text (printable_ident rfl)
    (printable_word (printable _ (List.mem_singleton_self _)).1)

theorem Literal.dump_printable {arg : Literal} (printable : Printable arg.leaves) :
    Printable (arg.dump.leaves printedIndex) :=
  Dump.printable_text (printable_ident rfl) (printable _ (List.mem_singleton_self _))

end Pieces

mutual

theorem TreeNode.dump_printable : (arg : TreeNode) → Printable arg.leaves → Printable (arg.dump.leaves printedIndex)
  | .mk name args, printable => by
    simp only [TreeNode.leaves, printable_append] at printable
    rw [TreeNode.dump]
    apply Dump.printable_fields (printable_ident rfl)
    apply printable_two_fields
    · apply DumpField.printable_node (printable_name rfl)
      exact name.dump_printable printable.1
    · apply DumpField.printable_node (printable_name rfl)
      exact args.dump_printable printable.2.2.1
  termination_by structural arg => arg

theorem NodeArgs.dump_printable : (arg : NodeArgs) → Printable arg.leaves → Printable (arg.dump.leaves printedIndex)
  | .listArgs list, printable => by
    rw [NodeArgs.dump]
    apply Dump.printable_fields (printable_ident rfl)
    apply printable_field
    exact DumpField.printable_list (printable_name rfl)
      (printable_ident rfl) (nodeArgList_dump_printable 0 list printable)
  | .literalArgs literal, printable => by
    rw [NodeArgs.dump]
    apply Dump.printable_fields (printable_ident rfl)
    apply printable_field
    apply DumpField.printable_node (printable_name rfl)
    exact literal.dump_printable printable
  termination_by structural arg => arg

theorem nodeArgList_dump_printable (k : Nat) : (list : List NodeArg) → Printable (nodeArgListLeaves list) →
    Printable (dumpElemsLeaves printedIndex k (nodeArgListDump list))
  | [], _ => nofun
  | arg :: list, printable => by
    obtain ⟨first, later⟩ := printable_append.mp printable
    simp only [nodeArgListDump, dumpElemsLeaves, printable_cons, printable_append]
    exact ⟨trivial, trivial, trivial, trivial, arg.dump_printable first, nodeArgList_dump_printable (k + 1) list later⟩
  termination_by structural list => list

theorem NodeArg.dump_printable : (arg : NodeArg) → Printable arg.leaves → Printable (arg.dump.leaves printedIndex)
  | .mk name value, printable => by
    simp only [NodeArg.leaves, printable_append] at printable
    rw [NodeArg.dump]
    apply Dump.printable_fields (printable_ident rfl)
    apply printable_two_fields
    · apply DumpField.printable_node (printable_name rfl)
      exact name.dump_printable printable.2.1
    · apply DumpField.printable_node (printable_name rfl)
      exact value.dump_printable printable.2.2.2
  termination_by structural arg => arg

theorem ArgValue.dump_printable : (arg : ArgValue) → Printable arg.leaves → Printable (arg.dump.leaves printedIndex)
  | .nodeValue node, printable => by
    rw [ArgValue.dump]
    apply Dump.printable_fields (printable_ident rfl)
    apply printable_field
    apply DumpField.printable_node (printable_name rfl)
    exact node.dump_printable printable
  | .listValue list, printable => by
    rw [ArgValue.dump]
    apply Dump.printable_fields (printable_ident rfl)
    apply printable_field
    apply DumpField.printable_node (printable_name rfl)
    exact list.dump_printable printable
  | .literalValue literal, printable => by
    rw [ArgValue.dump]
    apply Dump.printable_fields (printable_ident rfl)
    apply printable_field
    apply DumpField.printable_node (printable_name rfl)
    exact literal.dump_printable printable
  termination_by structural arg => arg

theorem NodeList.dump_printable : (arg : NodeList) → Printable arg.leaves → Printable (arg.dump.leaves printedIndex)
  | .mk base elems, printable => by
    simp only [NodeList.leaves, printable_append] at printable
    rw [NodeList.dump]
    apply Dump.printable_fields (printable_ident rfl)
    apply printable_two_fields
    · apply DumpField.printable_node (printable_name rfl)
      exact base.dump_printable printable.2.2.1
    · exact DumpField.printable_list (printable_name rfl)
        (printable_ident rfl)
        (listElems_dump_printable 0 elems printable.2.2.2.2.2.1)
  termination_by structural arg => arg

theorem listElems_dump_printable (k : Nat) : (elems : List ListElem) → Printable (listElemsLeaves elems) →
    Printable (dumpElemsLeaves printedIndex k (listElemsDump elems))
  | [], _ => nofun
  | elem :: elems, printable => by
    obtain ⟨first, later⟩ := printable_append.mp printable
    simp only [listElemsDump, dumpElemsLeaves, printable_cons, printable_append]
    exact ⟨trivial, trivial, trivial, trivial, elem.dump_printable first, listElems_dump_printable (k + 1) elems later⟩
  termination_by structural elems => elems

theorem ListElem.dump_printable : (arg : ListElem) → Printable arg.leaves → Printable (arg.dump.leaves printedIndex)
  | .mk index node, printable => by
    simp only [ListElem.leaves, printable_append] at printable
    rw [ListElem.dump]
    apply Dump.printable_fields (printable_ident rfl)
    apply printable_two_fields
    · exact DumpField.printable_text (printable_name rfl) (printable_decimal _)
    · apply DumpField.printable_node (printable_name rfl)
      exact node.dump_printable printable.2.2.2.2
  termination_by structural arg => arg

end

theorem Tree.dump_printable {tree : Tree} (printable : Printable tree.leaves) :
    Printable (tree.dump.leaves printedIndex) := by
  apply Dump.printable_fields (printable_ident rfl)
  apply printable_field
  apply DumpField.printable_node (printable_name rfl)
  exact tree.root.dump_printable printable

/-- What shows some leaves shows any that fit the same tokens. -/
theorem Shows.covered {argCtxt : Bool} {a b : List Leaf} {text : List Char}
    (covers : List.Forall₂ (fun leaf leaf' => ∀ tok, leaf.Fits tok → leaf'.Fits tok) a b) (shown : Shows argCtxt a text) :
    Shows argCtxt b text := by
  induction shown generalizing b with
  | done =>
    cases covers
    exact .done
  | space space _ ih => exact .space space (ih covers)
  | leaf spelled free bounded fits _ ih =>
    cases covers with
    | cons first later => exact .leaf spelled free bounded (fun pos => first _ (fits pos)) (ih later)

theorem decimal_decimalText (n : Nat) : decimal (decimalText n) = n := Nat.ofDigitChars_ten_toDigits

theorem printedIndex_covers {k : Nat} (small : k < 256) (tok : Token) (fits : (printedIndex k).Fits tok) :
    (byteIndex k).Fits tok := by
  obtain ⟨isNum, text⟩ := fits
  refine ⟨isNum, ?_, ?_⟩
  · rw [text]
    exact decimalText_numeral k
  · rw [text, decimal_decimalText, UInt8.toNat_ofNat', Nat.mod_eq_of_lt small]

section Whole
variable {type type' : InputType} {input : List Char} {tree tree' : Tree}

theorem Tree.dump_shows (printable : Printable tree.leaves) :
    ∃ text, AstPrinter.print tree = text ++ [newline] ∧ Shows false (tree.dump.leaves printedIndex) text := by
  have shown := tree.dump.shows 0 (Tree.dump_printable printable) .done
  rw [List.append_nil, List.append_nil] at shown
  exact ⟨_, tree.print_dump, shown⟩

/-- While every list is counted the dump is parsed as what encodes the tree. -/
theorem parseText_dump (printable : Printable tree.leaves) (short : ShortLists tree.nodes) (type : InputType) :
    parseText type (AstPrinter.print tree) = .ok tree.reify := by
  obtain ⟨text, printed, shown⟩ := Tree.dump_shows printable
  rw [printed]
  apply parseText_of_shows
  rw [Tree.leaves, Tree.reify, Dump.toTree_leaves]
  apply shown.covered
  exact tree.dump.leaves_related (fun _ _ => id) (fun _ small => printedIndex_covers small) (tree.dump_counted.mpr short)

/-- The indexes of a dump that is parsed are in range. -/
theorem shortLists_of_parseText (printable : Printable tree.leaves)
    (parsed : parseText type (AstPrinter.print tree) = .ok tree') : ShortLists tree.nodes := by
  obtain ⟨text, printed, shown⟩ := Tree.dump_shows printable
  rw [printed] at parsed
  obtain ⟨first, last, step, reads, ends⟩ := reads_of_parseText parsed
  obtain ⟨first', last', step', reads', ends'⟩ := shown.reads {}
  rw [init_line type shown.nul_free, step'] at step
  cases step
  have inner := inner_of_follow (tree'.follow (.token .equal))
  obtain ⟨toks, fits, fits'⟩ := reads.same_tokens reads' ends ends' inner shown.inner
  have range := ((sentence_iff_fits toks).mpr ⟨tree', fits⟩).2
  apply tree.dump_counted.mp
  apply tree.dump.counted_of_small
  intro k member
  obtain ⟨tok, present, isNum, lexeme⟩ := fits'.exists_token member
  have small := (range tok present isNum).2
  rw [lexeme, decimal_decimalText] at small
  omega

/-- The dump of a tree that was parsed from a clean text, and whose literals have no bare apostrophe,
is parsed if and only if no list is longer than an index counts, and then to what encodes the tree. -/
theorem dump_round_trip (clean : nul ∉ input) (parsed : parseText type input = .ok tree)
    (safe : ∀ body, Leaf.lexeme .str body ∈ tree.leaves → bareApostrophe body = false) (type' : InputType) :
    ((∃ tree', parseText type' (AstPrinter.print tree) = .ok tree') ↔ ∀ node ∈ tree.nodes, node.entries ≤ 256) ∧
    ∀ tree', parseText type' (AstPrinter.print tree) = .ok tree' → tree' = tree.reify := by
  have printable : Printable tree.leaves := fun leaf member =>
    (lexed_of_parseText clean parsed leaf member).printable fun body same => safe body (same ▸ member)
  refine ⟨⟨?_, ?_⟩, ?_⟩
  · rintro ⟨tree', parsed'⟩
    exact shortLists_of_parseText printable parsed'
  · intro short
    exact ⟨_, parseText_dump printable short type'⟩
  · intro tree' parsed'
    have short := shortLists_of_parseText printable parsed'
    exact Except.ok.inj (parsed'.symm.trans (parseText_dump printable short type'))

end Whole

/-- The dump of `A('x')`. -/
theorem dump_round_trip_literal :
    parseText .file (AstPrinter.print ⟨.mk ⟨['A']⟩ (.literalArgs ⟨['x']⟩)⟩) =
      .ok (Tree.reify ⟨.mk ⟨['A']⟩ (.literalArgs ⟨['x']⟩)⟩) := by
  have body : LiteralBody '\'' ['x'] := .plain (by decide) (by decide) (by decide) .nil
  have shown : Shows false (Tree.leaves ⟨.mk ⟨['A']⟩ (.literalArgs ⟨['x']⟩)⟩) "A('x')".toList :=
    @Shows.ident _ _ ['A'] (printable_ident rfl) (by rintro c ⟨⟩; decide)
      (.punct rfl (.str ⟨body, by decide⟩ (.punct rfl .done)))
  have safe : ∀ text, Leaf.lexeme .str text ∈ Tree.leaves ⟨.mk ⟨['A']⟩ (.literalArgs ⟨['x']⟩)⟩ →
      bareApostrophe text = false := by
    intro text member
    simp only [Tree.leaves, TreeNode.leaves, NodeName.leaves, NodeArgs.leaves, Literal.leaves, List.cons_append,
      List.nil_append, List.mem_cons, reduceCtorEq, Leaf.lexeme.injEq, false_and, true_and, or_false, false_or,
      List.not_mem_nil] at member
    rw [member]
    decide
  obtain ⟨accepted, encoded⟩ := dump_round_trip (by decide) (parseText_of_shows shown .text) safe .file
  obtain ⟨tree', parsed⟩ := accepted.mpr (by
    simp [Tree.nodes, TreeNode.nodes, NodeArgs.nodes, NodeName.nodes, Literal.nodes, AstNode.entries])
  rw [encoded tree' parsed] at parsed
  exact parsed

end CxxpyTree
