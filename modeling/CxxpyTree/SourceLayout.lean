import CxxpyTree.LexerTrace
import CxxpyTree.SourceRoundTrip
import CxxpyTree.StoredPrinter
import CxxpyTree.Lib.Document

/-! The two layouts of `SourcePrinter`: they differ in layout only, and the lines of the pretty one are
indented by the brackets that are open, as long as `indent_level` fits in its `short`. -/

namespace CxxpyTree

open Document

/-- A printed character, and whether `visit(const Literal*)` printed it. -/
abbrev Mark := Char × Bool

def code (text : List Char) : List Mark := text.map (·, false)
def quoted (literal : Literal) : List Mark := (SourcePrinter.visitLiteral literal).map (·, true)

/-- Layout and brackets are the spaces, newlines and brackets outside literals. -/
def printSigns : Signs Mark where
  newline := (newline, false)
  space := (' ', false)
  isEnd := fun mark => mark.1 == newline
  isSpace := fun mark => mark.1 == ' '
  kept := fun mark => mark.2 || !(mark.1 == ' ' || mark.1 == newline)
  opens := fun mark => !mark.2 && (mark.1 == '(' || mark.1 == '[')
  partner := fun mark =>
    if mark = (')', false) then some ('(', false) else if mark = (']', false) then some ('[', false) else none
  newline_isEnd := by decide
  newline_neutral := by decide
  newline_layout := by decide
  space_inside := by decide
  space_isSpace := by decide
  space_neutral := by decide
  space_layout := by decide

/-- The spaces that `DotsEndlPrint` writes at a level. -/
def indent (level : Nat) : Nat := 4 * (level % 2 ^ 16)

/-! The document that is printed for a syntax tree. -/

/-- Brackets around the list that `print` prints, which has lines unless it is empty. -/
def listed (opening closing : Char) (empty : Bool) (body : Doc Mark) : Doc Mark :=
  if empty then .text (code [opening, closing]) else .nest (opening, false) (closing, false) body

/-- The sign between a name or an index and its value. -/
def assigned (value : Doc Mark) : Doc Mark := .append .blank (.append (.text (code ['='])) (.append .blank value))

mutual

def TreeNode.doc : TreeNode → Doc Mark
  | .mk name args => .append (.text (code name.ident)) args.doc
  termination_by structural node => node

def NodeArgs.doc : NodeArgs → Doc Mark
  | .listArgs list => listed '(' ')' list.isEmpty (nodeArgListDoc list)
  | .literalArgs literal => .text (('(', false) :: (quoted literal ++ [(')', false)]))
  termination_by structural args => args

def nodeArgListDoc : List NodeArg → Doc Mark
  | [] => .text []
  | arg :: list => .append arg.doc (nodeArgListDoc list)
  termination_by structural list => list

def NodeArg.doc : NodeArg → Doc Mark
  | .mk name value => .append (.line (code ('.' :: name.str))) (assigned value.doc)
  termination_by structural arg => arg

def ArgValue.doc : ArgValue → Doc Mark
  | .nodeValue node => node.doc
  | .listValue list => list.doc
  | .literalValue literal => .text (quoted literal)
  termination_by structural value => value

def NodeList.doc : NodeList → Doc Mark
  | .mk base elems =>
    .append (.text (code ("list<".toList ++ (base.ident ++ ['>']))))
      (.append .blank (listed '[' ']' elems.isEmpty (listElemsDoc elems)))
  termination_by structural list => list

def listElemsDoc : List ListElem → Doc Mark
  | [] => .text []
  | elem :: elems => .append elem.doc (listElemsDoc elems)
  termination_by structural elems => elems

def ListElem.doc : ListElem → Doc Mark
  | .mk index node => .append (.line (code ('[' :: (decimalText index.toNat ++ [']'])))) (assigned node.doc)
  termination_by structural elem => elem

end

/-- What `print` writes, with the characters of literals marked. -/
def markedPrint (pretty : Bool) (tree : Tree) : List Mark :=
  tree.root.doc.render printSigns indent pretty 0 ++ [(newline, false)]

/-! How many lists of arguments or elements stand in one another, the empty ones left out. -/

mutual

def TreeNode.nesting : TreeNode → Nat
  | .mk _ args => args.nesting
  termination_by structural node => node

def NodeArgs.nesting : NodeArgs → Nat
  | .listArgs list => if list.isEmpty then 0 else nodeArgListNesting list + 1
  | .literalArgs _ => 0
  termination_by structural args => args

def nodeArgListNesting : List NodeArg → Nat
  | [] => 0
  | arg :: list => max arg.nesting (nodeArgListNesting list)
  termination_by structural list => list

def NodeArg.nesting : NodeArg → Nat
  | .mk _ value => value.nesting
  termination_by structural arg => arg

def ArgValue.nesting : ArgValue → Nat
  | .nodeValue node => node.nesting
  | .listValue list => list.nesting
  | .literalValue _ => 0
  termination_by structural value => value

def NodeList.nesting : NodeList → Nat
  | .mk _ elems => if elems.isEmpty then 0 else listElemsNesting elems + 1
  termination_by structural list => list

def listElemsNesting : List ListElem → Nat
  | [] => 0
  | elem :: elems => max elem.nesting (listElemsNesting elems)
  termination_by structural elems => elems

def ListElem.nesting : ListElem → Nat
  | .mk _ node => node.nesting
  termination_by structural elem => elem

end

/-- Without the spaces and newlines outside its literals, the pretty output is the terse one. -/
def LayoutOnly (tree : Tree) : Prop :=
  ((markedPrint true tree).filter printSigns.kept).map Prod.fst ++ [newline] = SourcePrinter.print false tree

/-- Every line of the pretty output but the first is indented by four spaces for each bracket open there. -/
def ShowsNesting (tree : Tree) : Prop := printSigns.Nested 4 [] (markedPrint true tree)

section Text
variable (pretty : Bool)

@[simp] theorem code_text (text : List Char) : (code text).map Prod.fst = text := by simp [code, Function.comp_def]

@[simp] theorem quoted_text (literal : Literal) :
    (quoted literal).map Prod.fst = SourcePrinter.visitLiteral literal := by
  simp [quoted, Function.comp_def]

/-- The line break and the spaces of a level, as `DotsEndlPrint` writes them. -/
theorem dotsEndl_eq (level : Nat) : dotsEndl level = newline :: List.replicate (indent level) ' ' := by
  have units (n : Nat) : (List.replicate n "    ".toList).flatten = List.replicate (4 * n) ' ' := by
    induction n with
    | zero => rfl
    | succ n ih => rw [List.replicate_succ, List.flatten_cons, ih, Nat.mul_succ, Nat.add_comm, List.replicate_add]; rfl
  have level_ : ((level : Int) % 2 ^ 16).toNat = level % 2 ^ 16 := by omega
  rw [dotsEndl, level_, units, indent]

theorem endl_text (level : Nat) :
    (if pretty then printSigns.newline :: List.replicate (indent level) printSigns.space else []).map Prod.fst =
      SourcePrinter.whenPretty pretty (dotsEndl level) := by
  cases pretty <;> simp [SourcePrinter.whenPretty, dotsEndl_eq, printSigns]

theorem listed_text {o c : Char} {empty : Bool} {body : Doc Mark} {text : List Char} {level : Nat}
    (inner : (body.render printSigns indent pretty (level + 1)).map Prod.fst = text)
    (none : empty = true → text = []) :
    ((listed o c empty body).render printSigns indent pretty level).map Prod.fst =
      o :: (text ++ (SourcePrinter.whenPretty pretty (if empty then [] else dotsEndl level) ++ [c])) := by
  cases empty with
  | true =>
    rw [none rfl]
    cases pretty <;> rfl
  | false => simp [listed, Doc.render, inner, endl_text]

theorem line_text (w : List Char) (level : Nat) :
    ((Doc.line (code w)).render printSigns indent pretty level).map Prod.fst =
      SourcePrinter.whenPretty pretty (dotsEndl level) ++ w := by
  rw [Doc.render, List.map_append, endl_text, code_text]

theorem blank_text (level : Nat) :
    (Doc.blank.render printSigns indent pretty level).map Prod.fst = SourcePrinter.whenPretty pretty [' '] := by
  cases pretty <;> rfl

theorem assigned_text (value : Doc Mark) (level : Nat) :
    ((assigned value).render printSigns indent pretty level).map Prod.fst =
      SourcePrinter.whenPretty pretty [' '] ++ '=' :: (SourcePrinter.whenPretty pretty [' '] ++
        (value.render printSigns indent pretty level).map Prod.fst) := by
  change (Doc.blank.render printSigns indent pretty level ++ (code ['='] ++
    (Doc.blank.render printSigns indent pretty level ++ value.render printSigns indent pretty level))).map Prod.fst = _
  rw [List.map_append, List.map_append, List.map_append, code_text, blank_text]
  rfl

mutual

theorem TreeNode.doc_text : (node : TreeNode) → ∀ level : Nat,
    (node.doc.render printSigns indent pretty level).map Prod.fst = SourcePrinter.visitTreeNode pretty level node
  | .mk name args, level => by
    rw [TreeNode.doc, Doc.render, List.map_append, args.doc_text level, Doc.render, code_text]
    rfl
  termination_by structural node => node

theorem NodeArgs.doc_text : (args : NodeArgs) → ∀ level : Nat,
    (args.doc.render printSigns indent pretty level).map Prod.fst =
      '(' :: (SourcePrinter.visitNodeArgs pretty level args ++ [')'])
  | .listArgs list, level => by
    have inner := nodeArgListDoc_text list (level + 1)
    rw [NodeArgs.doc, listed_text pretty inner (by simp +contextual [SourcePrinter.printNodeArgs])]
    simp [SourcePrinter.visitNodeArgs]
  | .literalArgs literal, level => by simp [NodeArgs.doc, Doc.render, SourcePrinter.visitNodeArgs]
  termination_by structural args => args

theorem nodeArgListDoc_text : (list : List NodeArg) → ∀ level : Nat,
    ((nodeArgListDoc list).render printSigns indent pretty level).map Prod.fst =
      SourcePrinter.printNodeArgs pretty level list
  | [], _ => rfl
  | .mk name value :: list, level => by
    rw [nodeArgListDoc, NodeArg.doc, Doc.render, Doc.render, List.map_append, List.map_append, line_text, assigned_text,
      value.doc_text level, nodeArgListDoc_text list level, SourcePrinter.printNodeArgs, SourcePrinter.visitNodeArg,
      SourcePrinter.visitArgName_eq]
    simp
  termination_by structural list => list

theorem ArgValue.doc_text : (value : ArgValue) → ∀ level : Nat,
    (value.doc.render printSigns indent pretty level).map Prod.fst = SourcePrinter.visitArgValue pretty level value
  | .nodeValue node, level => node.doc_text level
  | .listValue list, level => list.doc_text level
  | .literalValue literal, _ => quoted_text literal
  termination_by structural value => value

theorem NodeList.doc_text : (list : NodeList) → ∀ level : Nat,
    (list.doc.render printSigns indent pretty level).map Prod.fst = SourcePrinter.visitNodeList pretty level list
  | .mk base elems, level => by
    have elements := @listed_text pretty '[' ']' elems.isEmpty _ _ level (listElemsDoc_text elems (level + 1))
      (by simp +contextual [SourcePrinter.printListElems])
    change (code ("list<".toList ++ (base.ident ++ ['>'])) ++ (Doc.blank.render printSigns indent pretty level ++
      (listed '[' ']' elems.isEmpty (listElemsDoc elems)).render printSigns indent pretty level)).map Prod.fst = _
    rw [List.map_append, List.map_append, code_text, blank_text, elements, SourcePrinter.visitNodeList_eq]
    simp [SourcePrinter.visitNodeName]
  termination_by structural list => list

theorem listElemsDoc_text : (elems : List ListElem) → ∀ level : Nat,
    ((listElemsDoc elems).render printSigns indent pretty level).map Prod.fst =
      SourcePrinter.printListElems pretty level elems
  | [], _ => rfl
  | .mk index node :: elems, level => by
    rw [listElemsDoc, ListElem.doc, Doc.render, Doc.render, List.map_append, List.map_append, line_text, assigned_text,
      node.doc_text level, listElemsDoc_text elems level, SourcePrinter.printListElems, SourcePrinter.visitListElem,
      SourcePrinter.printIndex_eq]
    simp
  termination_by structural elems => elems

end

/-- The marked characters are the output of `print`. -/
theorem markedPrint_text (tree : Tree) : (markedPrint pretty tree).map Prod.fst = SourcePrinter.print pretty tree := by
  rw [markedPrint, List.map_append, tree.root.doc_text pretty 0]
  rfl

end Text

section Signs
variable {w : List Char}

/-- Neither layout nor a bracket. -/
def isSolid (c : Char) : Bool := !" \n()[]".toList.contains c

theorem code_neutral {c : Char} (solid : isSolid c = true) : printSigns.Neutral (c, false) := by
  simp only [isSolid, Bool.not_eq_true', List.contains_eq_mem, decide_eq_false_iff_not] at solid
  constructor <;> simp_all [printSigns, newline]

theorem isident_solid {c : Char} (ident : isident c = true) : isSolid c = true := by
  have others : " \n()[]".toList.all (fun d => !isident d) = true := by decide
  rw [isSolid, Bool.not_eq_true', List.contains_eq_mem, decide_eq_false_iff_not]
  intro member
  have other := List.all_eq_true.mp others c member
  simp [ident] at other

theorem code_level (solid : ∀ c ∈ w, isSolid c = true) : printSigns.Level (code w) := by
  refine .of_neutral fun mark member => ?_
  obtain ⟨c, inside, rfl⟩ := List.mem_map.mp member
  exact code_neutral (solid c inside)

/-- Whatever stands in a literal, it is one text on one line. -/
theorem quoted_level {literal : Literal} (oneLine : newline ∉ literal.str) : printSigns.Level (quoted literal) := by
  refine .of_neutral fun mark member => ?_
  obtain ⟨c, inside, rfl⟩ := List.mem_map.mp member
  have other : c ≠ newline := by
    rintro rfl
    simp [SourcePrinter.visitLiteral, oneLine] at inside
    exact absurd inside (by decide)
  constructor <;> simp [printSigns, other]

theorem pair_paren : printSigns.Pair ('(', false) (')', false) := by constructor <;> decide
theorem pair_sqbrk : printSigns.Pair ('[', false) (']', false) := by constructor <;> decide

theorem listed_fits {o c : Char} (pair : printSigns.Pair (o, false) (c, false)) (empty : Bool) {body : Doc Mark}
    (fits : body.Fits printSigns) : (listed o c empty body).Fits printSigns := by
  cases empty with
  | true => exact .enclosed pair (@code_level [] (by simp))
  | false => exact ⟨pair, fits⟩

theorem assigned_fits {value : Doc Mark} (fits : value.Fits printSigns) : (assigned value).Fits printSigns :=
  ⟨trivial, code_level (List.all_eq_true.mp (by decide)), trivial, fits⟩

/-- What a leaf must be for its text to be a text on one line without brackets outside literals. -/
def Leaf.Plain : Leaf → Prop
  | .lexeme .ident str => ∀ c ∈ str, isident c = true
  | .lexeme .name str => ∀ c ∈ str, isident c = true
  | .lexeme .str str => newline ∉ str
  | _ => True

mutual

theorem TreeNode.doc_fits : (node : TreeNode) → (∀ leaf ∈ node.leaves, leaf.Plain) → node.doc.Fits printSigns
  | .mk name args, plain => by
    simp only [TreeNode.leaves, NodeName.leaves, List.forall_mem_append, List.forall_mem_cons] at plain
    exact ⟨code_level fun c member => isident_solid (plain.1.1 c member), args.doc_fits plain.2.2.1⟩
  termination_by structural node => node

theorem NodeArgs.doc_fits : (args : NodeArgs) → (∀ leaf ∈ args.leaves, leaf.Plain) → args.doc.Fits printSigns
  | .listArgs list, plain => listed_fits pair_paren list.isEmpty (nodeArgListDoc_fits list plain)
  | .literalArgs _, plain => .enclosed pair_paren (quoted_level (plain _ (List.mem_singleton.mpr rfl)))
  termination_by structural args => args

theorem nodeArgListDoc_fits : (list : List NodeArg) → (∀ leaf ∈ nodeArgListLeaves list, leaf.Plain) →
    (nodeArgListDoc list).Fits printSigns
  | [], _ => @code_level [] (by simp)
  | .mk name value :: list, plain => by
    simp only [nodeArgListLeaves, NodeArg.leaves, ArgName.leaves, List.forall_mem_append, List.forall_mem_cons] at plain
    obtain ⟨⟨-, ⟨named, -⟩, -, valued⟩, later⟩ := plain
    have dot : isSolid '.' = true := by decide
    refine ⟨⟨⟨code_level ?_, _, _, rfl, by decide, by decide⟩, assigned_fits (value.doc_fits valued)⟩,
      nodeArgListDoc_fits list later⟩
    exact List.forall_mem_cons.mpr ⟨dot, fun c member => isident_solid (named c member)⟩
  termination_by structural list => list

theorem ArgValue.doc_fits : (value : ArgValue) → (∀ leaf ∈ value.leaves, leaf.Plain) → value.doc.Fits printSigns
  | .nodeValue node, plain => node.doc_fits plain
  | .listValue list, plain => list.doc_fits plain
  | .literalValue _, plain => quoted_level (plain _ (List.mem_singleton.mpr rfl))
  termination_by structural value => value

theorem NodeList.doc_fits : (list : NodeList) → (∀ leaf ∈ list.leaves, leaf.Plain) → list.doc.Fits printSigns
  | .mk base elems, plain => by
    simp only [NodeList.leaves, NodeName.leaves, List.forall_mem_append, List.forall_mem_cons] at plain
    obtain ⟨-, -, ⟨named, -⟩, -, -, elements, -⟩ := plain
    refine ⟨code_level ?_, trivial, listed_fits pair_sqbrk elems.isEmpty (listElemsDoc_fits elems elements)⟩
    have front : "list<".toList.all isSolid = true := by decide
    have back : ['>'].all isSolid = true := by decide
    rw [List.forall_mem_append, List.forall_mem_append]
    exact ⟨List.all_eq_true.mp front, fun c member => isident_solid (named c member), List.all_eq_true.mp back⟩
  termination_by structural list => list

theorem listElemsDoc_fits : (elems : List ListElem) → (∀ leaf ∈ listElemsLeaves elems, leaf.Plain) →
    (listElemsDoc elems).Fits printSigns
  | [], _ => @code_level [] (by simp)
  | .mk index node :: elems, plain => by
    simp only [listElemsLeaves, ListElem.leaves, List.forall_mem_append] at plain
    obtain ⟨⟨-, -, -, -, valued⟩, later⟩ := plain
    have digits : printSigns.Level (code (decimalText index.toNat)) :=
      code_level fun c member => isident_solid (isdigit_isident ((decimalText_numeral _).2 c member))
    have line : printSigns.Level (code ('[' :: (decimalText index.toNat ++ [']']))) := by
      simpa [code] using Signs.Level.enclosed pair_sqbrk digits
    exact ⟨⟨⟨line, _, _, rfl, by decide, by decide⟩, assigned_fits (node.doc_fits valued)⟩,
      listElemsDoc_fits elems later⟩
  termination_by structural elems => elems

end

end Signs

/-! The levels that have lines are those of the lists that stand in one another, and one more. -/

theorem listed_height (o c : Char) (empty : Bool) (body : Doc Mark) :
    (listed o c empty body).height = if empty then 0 else body.height + 1 := by
  cases empty <;> rfl

/-- A name or an index and its value, on a line of its own. -/
theorem item_height {w : List Mark} {value : Doc Mark} {nesting : Nat}
    (height : value.height = if nesting = 0 then 0 else nesting + 1) :
    (Doc.append (.line w) (assigned value)).height = nesting + 1 := by
  simp only [Doc.height, assigned, height]
  split <;> omega

/-- The items of a list, of which there may be none. -/
theorem max_height {empty : Bool} {first later : Nat} (none : empty = true → later = 0) :
    max (first + 1) (if empty then 0 else later + 1) = max first later + 1 := by
  cases empty with
  | true => simp [none rfl]
  | false => exact Nat.succ_max_succ first later

mutual

theorem TreeNode.doc_height : (node : TreeNode) →
    node.doc.height = if node.nesting = 0 then 0 else node.nesting + 1
  | .mk name args => by
    rw [TreeNode.doc, Doc.height, Doc.height, Nat.zero_max]
    exact args.doc_height
  termination_by structural node => node

theorem NodeArgs.doc_height : (args : NodeArgs) →
    args.doc.height = if args.nesting = 0 then 0 else args.nesting + 1
  | .listArgs list => by
    rw [NodeArgs.doc, listed_height, nodeArgListDoc_height list, NodeArgs.nesting]
    cases list <;> simp
  | .literalArgs _ => rfl
  termination_by structural args => args

theorem nodeArgListDoc_height : (list : List NodeArg) →
    (nodeArgListDoc list).height = if list.isEmpty then 0 else nodeArgListNesting list + 1
  | [] => rfl
  | .mk name value :: list => by
    rw [nodeArgListDoc, NodeArg.doc, Doc.height, item_height value.doc_height, nodeArgListDoc_height list]
    exact max_height (by simp +contextual [nodeArgListNesting])
  termination_by structural list => list

theorem ArgValue.doc_height : (value : ArgValue) →
    value.doc.height = if value.nesting = 0 then 0 else value.nesting + 1
  | .nodeValue node => node.doc_height
  | .listValue list => list.doc_height
  | .literalValue _ => rfl
  termination_by structural value => value

theorem NodeList.doc_height : (list : NodeList) →
    list.doc.height = if list.nesting = 0 then 0 else list.nesting + 1
  | .mk base elems => by
    simp only [NodeList.doc, Doc.height, listed_height, listElemsDoc_height elems, NodeList.nesting]
    cases elems <;> simp
  termination_by structural list => list

theorem listElemsDoc_height : (elems : List ListElem) →
    (listElemsDoc elems).height = if elems.isEmpty then 0 else listElemsNesting elems + 1
  | [] => rfl
  | .mk index node :: elems => by
    rw [listElemsDoc, ListElem.doc, Doc.height, item_height node.doc_height, listElemsDoc_height elems]
    exact max_height (by simp +contextual [listElemsNesting])
  termination_by structural elems => elems

end

section Parsed
variable {type : InputType} {input : List Char} {tree : Tree}

private theorem Leaf.plain_of_token {leaf : Leaf} {argCtxt : Bool} {s s' : Input} {tok : Token}
    (returned : nextToken argCtxt s = .ok (tok, s')) (fits : leaf.Fits tok) : leaf.Plain := by
  cases leaf with
  | token => trivial
  | index => trivial
  | lexeme type str =>
    obtain ⟨same, text⟩ := fits
    have within : ∀ c ∈ str, c ∈ tok.lex := fun c member => (List.takeWhile_prefix _).subset (text ▸ member)
    rcases nextToken_ok returned with ⟨rfl, -⟩ | ⟨item, w, spelled, -, rfl, -⟩
    · cases type <;> trivial
    · have shape := spelled.of_type argCtxt
      change item.type argCtxt = type at same
      rw [same] at shape
      cases type with
      | ident => exact fun c member => word_ident shape.1 c (within c member)
      | name => exact fun c member => word_ident shape.1 c (within c member)
      | str => exact fun inside => spelled.one_line (spelled.lex_subset (within _ inside))
      | _ => trivial

private theorem plain_of_reads {leaves : List Leaf} {first last : Token × Input} {argCtxt : Bool} {s : Input}
    (step : nextToken argCtxt s = .ok first) (reads : Reads nextToken first leaves last) :
    ∀ leaf ∈ leaves, leaf.Plain := by
  induction reads generalizing argCtxt s with
  | nil => exact fun leaf member => absurd member (by simp)
  | cons fits next _ ih => exact List.forall_mem_cons.mpr ⟨Leaf.plain_of_token step fits, ih next⟩

theorem doc_fits_of_parseText (parsed : parseText type input = .ok tree) : tree.root.doc.Fits printSigns := by
  obtain ⟨first, last, step, reads, -⟩ := reads_of_parseText parsed
  exact tree.root.doc_fits (plain_of_reads step reads)

theorem layoutOnly_of_fits (fits : tree.root.doc.Fits printSigns) : LayoutOnly tree := by
  have last : [(newline, false)].filter printSigns.kept = [] := by decide
  rw [LayoutOnly, markedPrint, List.filter_append, Doc.filter_render fits 0 0, last, List.append_nil,
    tree.root.doc_text false 0]
  rfl

/-- The indentation is right on every level that has lines if and only if none of them is beyond a `short`. -/
theorem showsNesting_iff (fits : tree.root.doc.Fits printSigns) : ShowsNesting tree ↔ tree.root.nesting < 2 ^ 16 := by
  have last : printSigns.Nested 4 [] [(newline, false)] := by
    rw [Signs.Nested, eachLine_cons]
    exact ⟨fun _ => rfl, eachLine_nil⟩
  have right (level : Nat) : indent level = 4 * level ↔ level < 2 ^ 16 := by
    rw [indent]
    omega
  rw [ShowsNesting, markedPrint, Doc.nested_render fits List.length_nil, tree.root.doc_height]
  simp only [last, and_true, Nat.zero_add, right]
  split
  next none => simp [none]
  next some => exact ⟨fun levels => levels _ (Nat.lt_succ_self _), fun bound i within => by omega⟩

end Parsed

/-! The lists of a tree stand in one another no deeper than the tree has nodes, and `node_alloc` bounds those. -/

mutual

theorem TreeNode.nesting_le : (node : TreeNode) → node.nesting ≤ node.nodes.length
  | .mk name args => by
    have within := args.nesting_le
    simp only [TreeNode.nesting, TreeNode.nodes, List.length_append]
    omega
  termination_by structural node => node

theorem NodeArgs.nesting_le : (args : NodeArgs) → args.nesting ≤ args.nodes.length
  | .listArgs list => by
    have within := nodeArgListNesting_le list
    simp only [NodeArgs.nesting, NodeArgs.nodes, List.length_append, List.length_singleton]
    split <;> omega
  | .literalArgs _ => Nat.zero_le _
  termination_by structural args => args

theorem nodeArgListNesting_le : (list : List NodeArg) → nodeArgListNesting list ≤ (nodeArgListNodes list).length
  | [] => Nat.le_refl _
  | arg :: list => by
    have first := arg.nesting_le
    have later := nodeArgListNesting_le list
    simp only [nodeArgListNesting, nodeArgListNodes, List.length_append]
    omega
  termination_by structural list => list

theorem NodeArg.nesting_le : (arg : NodeArg) → arg.nesting ≤ arg.nodes.length
  | .mk name value => by
    have within := value.nesting_le
    simp only [NodeArg.nesting, NodeArg.nodes, List.length_append]
    omega
  termination_by structural arg => arg

theorem ArgValue.nesting_le : (value : ArgValue) → value.nesting ≤ value.nodes.length
  | .nodeValue node => by
    rw [ArgValue.nesting, ArgValue.nodes, List.length_append]
    exact Nat.le_add_right_of_le node.nesting_le
  | .listValue list => by
    rw [ArgValue.nesting, ArgValue.nodes, List.length_append]
    exact Nat.le_add_right_of_le list.nesting_le
  | .literalValue _ => Nat.zero_le _
  termination_by structural value => value

theorem NodeList.nesting_le : (list : NodeList) → list.nesting ≤ list.nodes.length
  | .mk base elems => by
    have within := listElemsNesting_le elems
    simp only [NodeList.nesting, NodeList.nodes, List.length_append, List.length_singleton]
    split <;> omega
  termination_by structural list => list

theorem listElemsNesting_le : (elems : List ListElem) → listElemsNesting elems ≤ (listElemsNodes elems).length
  | [] => Nat.le_refl _
  | elem :: elems => by
    have first := elem.nesting_le
    have later := listElemsNesting_le elems
    simp only [listElemsNesting, listElemsNodes, List.length_append]
    omega
  termination_by structural elems => elems

theorem ListElem.nesting_le : (elem : ListElem) → elem.nesting ≤ elem.nodes.length
  | .mk index node => by
    rw [ListElem.nesting, ListElem.nodes, List.length_append]
    exact Nat.le_add_right_of_le node.nesting_le
  termination_by structural elem => elem

end

/-- Pretty and terse output of an `AST` that the parser returns differ in layout only, and the lines of the pretty
output show the nesting: no tree in the pools is deep enough for the `short` that counts the levels. -/
theorem source_layout {layout : Store.Layout} {nodeHeap rawHeap : Heap} {ast ast' : Store.AST}
    (made : Store.new nodeHeap rawHeap = some ast) {type : InputType} {input : List Char}
    (parsed : Stored.parseText layout type input ast = .ok ast') :
    ∃ tree, Stored.tree ast' = some tree ∧
      Stored.Source.printAst true ast' false = some ((markedPrint true tree).map Prod.fst) ∧
      Stored.Source.printAst false ast' false = some (SourcePrinter.print false tree) ∧
      LayoutOnly tree ∧ ShowsNesting tree := by
  obtain ⟨room, tree, returned, shows_⟩ := storedText_returned made parsed
  have fits := doc_fits_of_parseText returned
  refine ⟨tree, shows_.read, ?_, ?_, layoutOnly_of_fits fits, (showsNesting_iff fits).mpr ?_⟩
  · rw [shows_.reprinted, BasicPrinter.Source.print_plain, markedPrint_text]
  · rw [shows_.reprinted, BasicPrinter.Source.print_plain]
  · have nodes := room.length_le
    have deep := tree.root.nesting_le
    rw [parseNodes_of_parsed returned, Tree.nodes, List.length_append, List.length_singleton,
      new_nobjs made] at nodes
    omega

theorem source_layout_nested :
    let layout : Store.Layout := ⟨fun _ => 24, fun _ => ⟨3⟩⟩
    ∃ ast', Stored.parseText layout .text ("A(.a=B())".toList ++ [newline]) storeAt = .ok ast' ∧
      ∃ tree, Stored.tree ast' = some tree ∧
        Stored.Source.printAst true ast' false = some ((markedPrint true tree).map Prod.fst) ∧
        Stored.Source.printAst false ast' false = some (SourcePrinter.print false tree) ∧
        LayoutOnly tree ∧ ShowsNesting tree := by
  intro layout
  have room : storeAt.pools.Fit layout (parseNodes .text ("A(.a=B())".toList ++ [newline])) := by
    unfold Pools.Fit
    decide +kernel
  obtain ⟨ast', ran, -⟩ := storedText_shows storeAt_new room parseText_nested
  exact ⟨ast', ran, source_layout storeAt_new ran⟩

end CxxpyTree
