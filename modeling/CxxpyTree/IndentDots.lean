import CxxpyTree.AstPool
import CxxpyTree.BasicPrinter
import CxxpyTree.LexerTrace
import CxxpyTree.SourceRoundTrip

/-! The dots of `indent_dots`: they stand in the indentation only, and the text without them can be restored. -/

namespace CxxpyTree
open BasicPrinter

/-- The text without the dots of its indentation; the flag says that a line begins. -/
def undotFrom : Bool → List Char → List Char
  | true, '.' :: ' ' :: ' ' :: ' ' :: text => ' ' :: ' ' :: ' ' :: ' ' :: undotFrom true text
  | _, c :: text => c :: undotFrom (c == newline) text
  | _, [] => []

def undot (text : List Char) : List Char := undotFrom false text

/-- A word that cannot be taken for indentation. -/
def Firm (w : List Char) : Prop :=
  ∃ c rest, w = c :: rest ∧ c ≠ ' ' ∧ (c = '.' → ∃ d rest', rest = d :: rest' ∧ d ≠ ' ')

/-- Every word stands on one line, and every line begins with a firm one. -/
inductive Tidy : List Write → Prop where
  | nil : Tidy []
  | text {w ws} (line : newline ∉ w) (rest : Tidy ws) : Tidy (.text w :: ws)
  | endl {level w ws} (firm : Firm w) (rest : Tidy (.text w :: ws)) : Tidy (.endl level :: .text w :: ws)

section Undot
variable {w text : List Char} {ws : List Write}

theorem undotFrom_cons (c : Char) : undotFrom false (c :: text) = c :: undotFrom (c == newline) text := by
  simp [undotFrom]

theorem undotFrom_word (line : newline ∉ w) : undotFrom false (w ++ text) = w ++ undotFrom false text := by
  induction w with
  | nil => rfl
  | cons c w ih =>
    obtain ⟨first, later⟩ := not_or.mp (mt List.mem_cons.mpr line)
    have inside : (c == newline) = false := beq_eq_false_iff_ne.mpr (Ne.symm first)
    rw [List.cons_append, undotFrom_cons, inside, ih later, List.cons_append]

theorem undotFrom_dots (n : Nat) : undotFrom true ((List.replicate n ".   ".toList).flatten ++ text) =
    (List.replicate n "    ".toList).flatten ++ undotFrom true text := by
  induction n with
  | zero => rfl
  | succ n ih =>
    simp only [List.replicate_succ, List.flatten_cons, List.append_assoc, ← ih]
    rfl

theorem undotFrom_firm (firm : Firm w) : undotFrom true (w ++ text) = undotFrom false (w ++ text) := by
  obtain ⟨c, rest, rfl, -, second⟩ := firm
  rw [List.cons_append, undotFrom_cons]
  by_cases isDot : c = '.'
  · obtain ⟨d, rest', rfl, other⟩ := second isDot
    rw [List.cons_append, undotFrom]
    intro _ _ _ same
    exact other (List.cons.inj same).1
  · rw [undotFrom]
    intro _ _ same _
    exact isDot same

theorem undotFrom_unit (text : List Char) : undotFrom false ("    ".toList ++ text) = "    ".toList ++ undotFrom false text :=
  undotFrom_word (by decide)

/-- Behind spaces there are no dots to be removed. -/
theorem undotFrom_spaces (firm : Firm w) (n : Nat) :
    undotFrom true ((List.replicate n "    ".toList).flatten ++ (w ++ text)) =
      (List.replicate n "    ".toList).flatten ++ undotFrom false (w ++ text) := by
  have later : ∀ n, undotFrom false ((List.replicate n "    ".toList).flatten ++ (w ++ text)) =
      (List.replicate n "    ".toList).flatten ++ undotFrom false (w ++ text) := by
    intro n
    induction n with
    | zero => rfl
    | succ n ih => rw [List.replicate_succ, List.flatten_cons, List.append_assoc, undotFrom_unit, ih, List.append_assoc]
  cases n with
  | zero => simpa using undotFrom_firm firm
  | succ n =>
    rw [← later, List.replicate_succ, List.flatten_cons, List.append_assoc, undotFrom_unit]
    simp [undotFrom, newline]

/-- Without its dots, the text is that of the same writes with `indent_dots` off. -/
theorem undot_output (tidy : Tidy ws) (dots : Bool) (text : List Char) :
    undotFrom false (output dots ws ++ text) = output false ws ++ undotFrom false text := by
  induction tidy with
  | nil => rfl
  | text line _ ih => rw [output_text, output_text, List.append_assoc, undotFrom_word line, ih, List.append_assoc]
  | @endl level w ws firm _ ih =>
    have indent : undotFrom false (dotsEndlPrint dots level ++ (w ++ (output dots ws ++ text))) =
        dotsEndlPrint false level ++ undotFrom false (w ++ (output dots ws ++ text)) := by
      rw [dotsEndlPrint, List.cons_append, undotFrom_cons, beq_self_eq_true]
      cases dots with
      | false => exact congrArg (List.cons newline) (undotFrom_spaces firm _)
      | true => exact congrArg (List.cons newline) ((undotFrom_dots _).trans (congrArg _ (undotFrom_firm firm)))
    rw [output_endl, output_endl, List.append_assoc, output_text, List.append_assoc, indent, ← List.append_assoc w, ← output_text,
      ih, List.append_assoc]

end Undot

/-- A text of a leaf stands on one line, and a name begins as one. -/
def Leaf.OneLine : Leaf → Prop
  | .lexeme .ident str | .lexeme .name str => Item.Spelled (.word str) str
  | .lexeme _ str => newline ∉ str
  | _ => True

def OneLine (leaves : List Leaf) : Prop := ∀ leaf ∈ leaves, leaf.OneLine

section Leaves
variable {leaf : Leaf} {a b : List Leaf}

@[simp] theorem oneLine_nil : OneLine [] := List.forall_mem_nil _

@[simp] theorem oneLine_append : OneLine (a ++ b) ↔ OneLine a ∧ OneLine b := List.forall_mem_append

@[simp] theorem oneLine_cons : OneLine (leaf :: a) ↔ leaf.OneLine ∧ OneLine a := List.forall_mem_cons

theorem cstr_subset (buf : List Char) : cstr buf ⊆ buf := (List.takeWhile_sublist _).subset

theorem Leaf.oneLine_of_token {argCtxt : Bool} {s s' : Input} {tok : Token} (returned : nextToken argCtxt s = .ok (tok, s'))
    (fits : leaf.Fits tok) : leaf.OneLine := by
  cases leaf with
  | token => trivial
  | index => trivial
  | lexeme type str =>
    obtain ⟨same, rfl⟩ := fits
    rcases nextToken_ok returned with ⟨rfl, -⟩ | ⟨item, w, spelled, -, rfl, -⟩
    · subst same
      simp [Leaf.OneLine]
    · have line : newline ∉ cstr item.lex := fun member => spelled.one_line (spelled.lex_subset (cstr_subset _ member))
      have shape := spelled.of_type argCtxt
      change item.type argCtxt = type at same
      rw [same] at shape
      cases type with
      | ident | name =>
        change Item.Spelled (.word (cstr item.lex)) (cstr item.lex)
        rw [cstr_of_nul_free (word_free shape.1)]
        exact shape.1
      | _ => exact line

theorem Reads.oneLine {leaves : List Leaf} {first last : Token × Input} {argCtxt : Bool} {s : Input}
    (step : nextToken argCtxt s = .ok first) (reads : Reads nextToken first leaves last) : OneLine leaves := by
  induction reads generalizing argCtxt s with
  | nil => exact oneLine_nil
  | cons fits next rest ih => exact oneLine_cons.mpr ⟨Leaf.oneLine_of_token step fits, ih next⟩

/-- The tree of any text that parses. -/
theorem oneLine_of_parseText {type : InputType} {input : List Char} {tree : Tree} (parsed : parseText type input = .ok tree) :
    OneLine tree.leaves := by
  obtain ⟨first, last, step, reads, -⟩ := reads_of_parseText parsed
  exact reads.oneLine step

end Leaves

/-- Writes after which a tidy stream stays tidy. -/
def Tidies (writes : List Write) : Prop := ∀ ws, Tidy ws → Tidy (writes ++ ws)

/-- Writes that may also stand behind `endl`. -/
def Opens (writes : List Write) : Prop :=
  Tidies writes ∧ ∃ w rest, writes = .text w :: rest ∧ Firm w

section Tidiness
variable {a b writes : List Write} {w : List Char} {level : Int}

theorem tidies_nil : Tidies [] := fun _ tidy => tidy

theorem Tidies.append (first : Tidies a) (second : Tidies b) : Tidies (a ++ b) := by
  intro ws tidy
  rw [List.append_assoc]
  exact first _ (second _ tidy)

theorem tidies_text (line : newline ∉ w) : Tidies [.text w] := fun _ tidy => .text line tidy

theorem Tidies.cons (line : newline ∉ w) (rest : Tidies a) : Tidies (.text w :: a) := (tidies_text line).append rest

theorem Opens.of_text (line : newline ∉ w) (firm : Firm w) (rest : Tidies a) : Opens (.text w :: a) :=
  ⟨rest.cons line, w, a, rfl, firm⟩

theorem Opens.append (first : Opens a) (second : Tidies b) : Opens (a ++ b) := by
  obtain ⟨tidies, w, rest, rfl, firm⟩ := first
  exact ⟨tidies.append second, w, rest ++ b, rfl, firm⟩

theorem Opens.endl (opens : Opens a) : Tidies (.endl level :: a) := by
  obtain ⟨tidies, w, rest, rfl, firm⟩ := opens
  exact fun ws tidy => .endl firm (tidies ws tidy)

theorem opens_closing {c : Char} (solid : c ≠ ' ' ∧ c ≠ '.') (line : c ≠ newline) : Opens [.text [c]] :=
  .of_text (by simpa using Ne.symm line) ⟨c, [], rfl, solid.1, fun isDot => absurd isDot solid.2⟩ tidies_nil

end Tidiness

/-! What the printers write is tidy. -/

section Visitors
variable {verbose : Bool} {level : Int} {a : List Write} {str : CStr}

/-- The name of a class or of a field. -/
structure Named (name : CStr) : Prop where
  line : newline ∉ name
  firm : ∃ c rest, name = c :: rest ∧ c ≠ ' ' ∧ c ≠ '.'

theorem Named.append {name : CStr} (named : Named name) (w : List Char) : Firm (name ++ w) := by
  obtain ⟨c, rest, rfl, solid, other⟩ := named.firm
  exact ⟨c, rest ++ w, rfl, solid, fun isDot => absurd isDot other⟩

theorem Named.of_word (spelled : Item.Spelled (.word str) str) : Named str := by
  refine ⟨spelled.one_line, ?_⟩
  cases spelled with
  | word first _ =>
    refine ⟨_, _, rfl, ?_, ?_⟩
    · rintro rfl
      exact absurd first (by decide)
    · rintro rfl
      exact absurd first (by decide)

theorem named_const {c : Char} {name : String} {rest : List Char} (shape : name.toList = c :: rest)
    (solid : (c != ' ' && c != '.' && !(c :: rest).contains newline) = true) : Named name.toList := by
  simp only [Bool.and_eq_true, bne_iff_ne, ne_eq, Bool.not_eq_true', List.contains_eq_mem, decide_eq_false_iff_not] at solid
  exact ⟨shape ▸ solid.2, c, rest, shape, solid.1.1, solid.1.2⟩

theorem opens_textNode {name : CStr} (named : Named name) (line : newline ∉ str) : Opens (textNode name str) := by
  refine .of_text ?_ (named.append _) tidies_nil
  have name_line := named.line
  unfold newline at line name_line ⊢
  simp [AstPrinter.textNode, AstPrinter.repr, name_line, line]

theorem opens_fieldsNode {name : CStr} (named : Named name) (fields : Tidies a) : Opens (fieldsNode level name a) := by
  refine .of_text ?_ (named.append _) (fields.append (opens_closing (by decide) (by decide)).endl)
  have line := named.line
  unfold newline at line ⊢
  simp [line]

theorem tidies_attr {name : CStr} (named : Named name) (value : Opens a) : Tidies (attr verbose level name ++ a) := by
  cases verbose with
  | false => exact value.endl
  | true =>
    obtain ⟨c, rest, rfl, solid, -⟩ := named.firm
    have label : Opens (.text ('.' :: (c :: rest ++ " = ".toList)) :: a) := by
      refine .of_text ?_ ⟨'.', _, rfl, by decide, fun _ => ⟨c, _, rfl, solid⟩⟩ value.1
      have line := named.line
      unfold newline at line ⊢
      simp only [List.mem_cons, not_or] at line
      simp [line]
    exact label.endl

theorem decimalText_line (n : Nat) : newline ∉ decimalText n := fun member => absurd ((decimalText_numeral n).2 _ member) (by decide)

theorem tidies_elemWrites {k : Nat} (elem : Opens a) : Tidies (elemWrites verbose level k ++ a) := by
  cases verbose with
  | false => exact elem.endl
  | true =>
    have label : Opens (.text ('[' :: (decimalText k ++ "] = ".toList)) :: a) := by
      refine .of_text ?_ ⟨'[', _, rfl, by decide, fun isDot => absurd isDot (by decide)⟩ elem.1
      have line := decimalText_line k
      unfold newline at line ⊢
      simp [line]
    exact label.endl

theorem opens_listWrites {base : CStr} {empty : Bool} (line : newline ∉ base) (elems : Tidies a) :
    Opens (listWrites level base empty a) := by
  refine .of_text ?_ ⟨'l', _, rfl, by decide, fun isDot => absurd isDot (by decide)⟩ (elems.append ?_)
  · unfold newline at line ⊢
    simp [line]
  · have closing : Opens [.text [']']] := opens_closing (by decide) (by decide)
    cases empty with
    | true => exact closing.1
    | false => exact closing.endl

theorem NodeName.opens {name : NodeName} (line : OneLine name.leaves) : Opens (visitNodeName name) := by
  have word : Item.Spelled (.word name.ident) name.ident := by simpa [NodeName.leaves, Leaf.OneLine] using line
  exact opens_textNode (named_const rfl rfl) word.one_line

theorem ArgName.opens {name : ArgName} (line : OneLine name.leaves) : Opens (visitArgName name) := by
  have word : Item.Spelled (.word name.str) name.str := by simpa [ArgName.leaves, Leaf.OneLine] using line
  exact opens_textNode (named_const rfl rfl) word.one_line

theorem Literal.opens {literal : Literal} (line : OneLine literal.leaves) : Opens (visitLiteral literal) := by
  have one : newline ∉ literal.str := by simpa [Literal.leaves, Leaf.OneLine] using line
  exact opens_textNode (named_const rfl rfl) one

mutual

theorem TreeNode.opens (level : Int) : (arg : TreeNode) → OneLine arg.leaves → Opens (visitTreeNode verbose level arg)
  | .mk name args, line => by
    simp only [TreeNode.leaves, oneLine_append] at line
    rw [visitTreeNode, List.append_assoc _ (attr verbose level "args".toList)]
    exact opens_fieldsNode (named_const rfl rfl) ((tidies_attr (named_const rfl rfl) (NodeName.opens line.1)).append
      (tidies_attr (named_const rfl rfl) (args.opens (level + 1) line.2.2.1)))
  termination_by structural arg => arg

theorem NodeArgs.opens (level : Int) : (arg : NodeArgs) → OneLine arg.leaves → Opens (visitNodeArgs verbose level arg)
  | .listArgs list, line => by
    rw [NodeArgs.leaves] at line
    rw [visitNodeArgs]
    exact opens_fieldsNode (named_const rfl rfl) (tidies_attr (named_const rfl rfl)
      (opens_listWrites (by decide) (nodeArgList_tidies (level + 1) 0 list line)))
  | .literalArgs literal, line => by
    rw [NodeArgs.leaves] at line
    rw [visitNodeArgs]
    exact opens_fieldsNode (named_const rfl rfl) (tidies_attr (named_const rfl rfl) (Literal.opens line))
  termination_by structural arg => arg

theorem nodeArgList_tidies (level : Int) (k : Nat) : (list : List NodeArg) → OneLine (nodeArgListLeaves list) →
    Tidies (printNodeArgs verbose level k list)
  | [], _ => tidies_nil
  | arg :: list, line => by
    simp only [nodeArgListLeaves, oneLine_append] at line
    rw [printNodeArgs]
    exact (tidies_elemWrites (arg.opens (level + 1) line.1)).append (nodeArgList_tidies level (k + 1) list line.2)
  termination_by structural list => list

theorem NodeArg.opens (level : Int) : (arg : NodeArg) → OneLine arg.leaves → Opens (visitNodeArg verbose level arg)
  | .mk name value, line => by
    simp only [NodeArg.leaves, oneLine_append] at line
    rw [visitNodeArg, List.append_assoc _ (attr verbose level "value".toList)]
    exact opens_fieldsNode (named_const rfl rfl) ((tidies_attr (named_const rfl rfl) (ArgName.opens line.2.1)).append
      (tidies_attr (named_const rfl rfl) (value.opens (level + 1) line.2.2.2)))
  termination_by structural arg => arg

theorem ArgValue.opens (level : Int) : (arg : ArgValue) → OneLine arg.leaves → Opens (visitArgValue verbose level arg)
  | .nodeValue node, line => by
    rw [ArgValue.leaves] at line
    rw [visitArgValue]
    exact opens_fieldsNode (named_const rfl rfl) (tidies_attr (named_const rfl rfl) (node.opens (level + 1) line))
  | .listValue list, line => by
    rw [ArgValue.leaves] at line
    rw [visitArgValue]
    exact opens_fieldsNode (named_const rfl rfl) (tidies_attr (named_const rfl rfl) (list.opens (level + 1) line))
  | .literalValue literal, line => by
    rw [ArgValue.leaves] at line
    rw [visitArgValue]
    exact opens_fieldsNode (named_const rfl rfl) (tidies_attr (named_const rfl rfl) (Literal.opens line))
  termination_by structural arg => arg

theorem NodeList.opens (level : Int) : (arg : NodeList) → OneLine arg.leaves → Opens (visitNodeList verbose level arg)
  | .mk base elems, line => by
    simp only [NodeList.leaves, oneLine_append] at line
    rw [visitNodeList, List.append_assoc _ (attr verbose level "elems".toList)]
    exact opens_fieldsNode (named_const rfl rfl) ((tidies_attr (named_const rfl rfl) (NodeName.opens line.2.2.1)).append
      (tidies_attr (named_const rfl rfl)
        (opens_listWrites (by decide) (listElems_tidies (level + 1) 0 elems line.2.2.2.2.2.1))))
  termination_by structural arg => arg

theorem listElems_tidies (level : Int) (k : Nat) : (elems : List ListElem) → OneLine (listElemsLeaves elems) →
    Tidies (printListElems verbose level k elems)
  | [], _ => tidies_nil
  | elem :: elems, line => by
    simp only [listElemsLeaves, oneLine_append] at line
    rw [printListElems]
    exact (tidies_elemWrites (elem.opens (level + 1) line.1)).append (listElems_tidies level (k + 1) elems line.2)
  termination_by structural elems => elems

theorem ListElem.opens (level : Int) : (arg : ListElem) → OneLine arg.leaves → Opens (visitListElem verbose level arg)
  | .mk index node, line => by
    simp only [ListElem.leaves, oneLine_append] at line
    have number : Opens (typeIndex index) := by
      refine .of_text ?_ ⟨'\'', _, rfl, by decide, fun isDot => absurd isDot (by decide)⟩ tidies_nil
      have inside := decimalText_line index.toNat
      unfold newline at inside ⊢
      simp [AstPrinter.typeIndex, AstPrinter.repr, inside]
    rw [visitListElem, List.append_assoc _ (attr verbose level "node".toList)]
    exact opens_fieldsNode (named_const rfl rfl) ((tidies_attr (named_const rfl rfl) number).append
      (tidies_attr (named_const rfl rfl) (node.opens (level + 1) line.2.2.2.2)))
  termination_by structural arg => arg

end

theorem Tree.opens {tree : Tree} (line : OneLine tree.leaves) : Opens (visitTree verbose level tree) :=
  opens_fieldsNode (named_const rfl rfl) (tidies_attr (named_const rfl rfl) (tree.root.opens (level + 1) line))

end Visitors

namespace BasicPrinter.Source
variable {pretty : Bool} {level : Int} {a : List Write}

theorem tidies_layout (opens : Opens a) : Tidies (whenPretty pretty [.endl level] ++ a) := by
  cases pretty with
  | false => exact opens.1
  | true => exact opens.endl

theorem tidies_closing {c : Char} {empty : Bool} (solid : c ≠ ' ' ∧ c ≠ '.') (line : c ≠ newline) :
    Tidies (whenPretty pretty (if empty then [] else [.endl level]) ++ [.text [c]]) := by
  have closing := opens_closing solid line
  cases empty with
  | true => cases pretty <;> exact closing.1
  | false => exact tidies_layout closing

theorem literal_opens {literal : Literal} (line : OneLine literal.leaves) : Opens (visitLiteral literal) := by
  have one : newline ∉ literal.str := by simpa [Literal.leaves, Leaf.OneLine] using line
  refine .of_text ?_ ⟨'\'', _, rfl, by decide, fun isDot => absurd isDot (by decide)⟩ tidies_nil
  unfold newline at one ⊢
  simp [SourcePrinter.visitLiteral, one]

theorem argName_opens {name : ArgName} (line : OneLine name.leaves) : Opens (visitArgName pretty name) := by
  have word : Item.Spelled (.word name.str) name.str := by simpa [ArgName.leaves, Leaf.OneLine] using line
  have named := Named.of_word word
  obtain ⟨c, rest, shape, solid, -⟩ := named.firm
  have one := named.line
  refine .of_text ?_ ⟨'.', _, rfl, by decide, fun _ => ⟨c, _, by rw [shape]; rfl, solid⟩⟩ tidies_nil
  unfold newline at one ⊢
  cases pretty <;> simp [SourcePrinter.visitArgName, one]

theorem printIndex_opens (index : UInt8) : Opens (printIndex pretty index) := by
  have inside := decimalText_line index.toNat
  refine .of_text ?_ ⟨'[', _, rfl, by decide, fun isDot => absurd isDot (by decide)⟩ tidies_nil
  unfold newline at inside ⊢
  cases pretty <;> simp [SourcePrinter.printIndex, inside]

mutual

theorem treeNode_opens (level : Int) : (node : TreeNode) → OneLine node.leaves → Opens (visitTreeNode pretty level node)
  | .mk name args, line => by
    simp only [TreeNode.leaves, oneLine_append] at line
    have word : Item.Spelled (.word name.ident) name.ident := by simpa [NodeName.leaves, Leaf.OneLine] using line.1
    have named := Named.of_word word
    have firm : Firm name.ident := by simpa using named.append []
    rw [visitTreeNode]
    exact (Opens.of_text named.line firm tidies_nil).append
      ((nodeArgs_tidies level args line.2.2.1 (by decide) (by decide)).cons (by decide))
  termination_by structural node => node

/-- With the character that closes the arguments. -/
theorem nodeArgs_tidies (level : Int) : (args : NodeArgs) → OneLine args.leaves → ∀ {c : Char}, c ≠ ' ' ∧ c ≠ '.' → c ≠ newline →
    Tidies (visitNodeArgs pretty level args ++ [.text [c]])
  | .listArgs list, line, c, solid, other => by
    rw [NodeArgs.leaves] at line
    rw [visitNodeArgs, List.append_assoc]
    exact (nodeArgList_tidies (level + 1) list line).append (tidies_closing solid other)
  | .literalArgs literal, line, c, solid, other => by
    rw [NodeArgs.leaves] at line
    rw [visitNodeArgs]
    exact (literal_opens line).1.append (opens_closing solid other).1
  termination_by structural args => args

theorem nodeArgList_tidies (level : Int) : (list : List NodeArg) → OneLine (nodeArgListLeaves list) →
    Tidies (printNodeArgs pretty level list)
  | [], _ => tidies_nil
  | arg :: list, line => by
    simp only [nodeArgListLeaves, oneLine_append] at line
    rw [printNodeArgs, ← List.append_assoc]
    exact (tidies_layout (nodeArg_opens level arg line.1)).append (nodeArgList_tidies level list line.2)
  termination_by structural list => list

theorem nodeArg_opens (level : Int) : (arg : NodeArg) → OneLine arg.leaves → Opens (visitNodeArg pretty level arg)
  | .mk name value, line => by
    simp only [NodeArg.leaves, oneLine_append] at line
    rw [visitNodeArg]
    exact (argName_opens line.2.1).append (argValue_opens level value line.2.2.2).1
  termination_by structural arg => arg

theorem argValue_opens (level : Int) : (value : ArgValue) → OneLine value.leaves → Opens (visitArgValue pretty level value)
  | .nodeValue node, line => by
    rw [ArgValue.leaves] at line
    rw [visitArgValue]
    exact treeNode_opens level node line
  | .listValue list, line => by
    rw [ArgValue.leaves] at line
    rw [visitArgValue]
    exact nodeList_opens level list line
  | .literalValue literal, line => by
    rw [ArgValue.leaves] at line
    rw [visitArgValue]
    exact literal_opens line
  termination_by structural value => value

theorem nodeList_opens (level : Int) : (list : NodeList) → OneLine list.leaves → Opens (visitNodeList pretty level list)
  | .mk base elems, line => by
    simp only [NodeList.leaves, oneLine_append] at line
    have word : Item.Spelled (.word base.ident) base.ident := by simpa [NodeName.leaves, Leaf.OneLine] using line.2.2.1
    have sign : newline ∉ if pretty then "> [".toList else ">[".toList := by cases pretty <;> decide
    rw [visitNodeList]
    refine .of_text (by decide) ⟨'l', _, rfl, by decide, fun isDot => absurd isDot (by decide)⟩ ?_
    exact (tidies_text word.one_line).append (.cons sign
      ((listElems_tidies (level + 1) elems line.2.2.2.2.2.1).append (tidies_closing (by decide) (by decide))))
  termination_by structural list => list

theorem listElems_tidies (level : Int) : (elems : List ListElem) → OneLine (listElemsLeaves elems) →
    Tidies (printListElems pretty level elems)
  | [], _ => tidies_nil
  | elem :: elems, line => by
    simp only [listElemsLeaves, oneLine_append] at line
    rw [printListElems, ← List.append_assoc]
    exact (tidies_layout (listElem_opens level elem line.1)).append (listElems_tidies level elems line.2)
  termination_by structural elems => elems

theorem listElem_opens (level : Int) : (elem : ListElem) → OneLine elem.leaves → Opens (visitListElem pretty level elem)
  | .mk index node, line => by
    simp only [ListElem.leaves, oneLine_append] at line
    rw [visitListElem]
    exact (printIndex_opens index).append (treeNode_opens level node line.2.2.2.2).1
  termination_by structural elem => elem

end

end BasicPrinter.Source

/-- With `indent_dots`, every printer writes the text that it writes without, but for the dots in the indentation. -/
theorem undot_print {type : InputType} {input : List Char} {tree : Tree} (parsed : parseText type input = .ok tree) (pretty : Bool) :
    undot (Printer.print true tree) = Printer.print false tree ∧ undot (Dumper.print true tree) = Dumper.print false tree ∧
      undot (BasicPrinter.Source.print pretty true tree) = BasicPrinter.Source.print pretty false tree := by
  have line := oneLine_of_parseText parsed
  have restored : ∀ writes : List Write, Tidies writes →
      undot (output true writes ++ [newline]) = output false writes ++ [newline] := by
    intro writes tidies
    have tidy := tidies [] .nil
    rw [List.append_nil] at tidy
    exact undot_output tidy true [newline]
  exact ⟨restored _ (Tree.opens line).1, restored _ (Tree.opens line).1, restored _ (Source.treeNode_opens 0 tree.root line).1⟩

theorem undot_print_nested : undot (Printer.print true nestedTree) = Printer.print false nestedTree :=
  (undot_print parseText_nested true).1

end CxxpyTree
