import CxxpyTree.Layout
import CxxpyTree.ParserCorrect
import CxxpyTree.SourcePrinter

/-! A printed syntax tree parses to itself. -/

namespace CxxpyTree

open Machine

/-- An apostrophe that no backslash precedes as the other half of its pair. -/
def bareApostrophe : List Char → Bool
  | [] => false
  | [c] => c == '\''
  | c :: d :: rest => if c == backslash then bareApostrophe rest else c == '\'' || bareApostrophe (d :: rest)

/-- A body of either quote without bare apostrophes is a body between apostrophes. -/
theorem LiteralBody.apostrophe {quote : Char} {body : List Char} (valid : LiteralBody quote body)
    (safe : bareApostrophe body = false) : LiteralBody '\'' body := by
  induction valid with
  | nil => exact .nil
  | @plain c rest plain unescaped other tail ih =>
    have head : c ≠ '\'' ∧ bareApostrophe rest = false := by
      cases rest <;> simpa [bareApostrophe, unescaped] using safe
    exact .plain plain unescaped head.1 (ih head.2)
  | escape inside tail ih => exact .escape inside (ih (by simpa [bareApostrophe] using safe))

theorem word_ident {str : CStr} (spelled : Item.Spelled (.word str) str) : ∀ c ∈ str, isident c = true := by
  cases spelled with
  | word first later => exact List.forall_mem_cons.mpr ⟨isident0_isident first, later⟩

theorem word_free {str : CStr} (spelled : Item.Spelled (.word str) str) : nul ∉ str :=
  fun member => absurd (word_ident spelled nul member) (by decide)

theorem decimalText_numeral (n : Nat) : IsNumeral (decimalText n) := by
  refine ⟨Nat.toDigits_ne_nil, fun c member => ?_⟩
  have digit : c.isDigit = true := Nat.isDigit_of_mem_toDigits (by decide) (by decide) member
  rw [Char.isDigit_iff_toNat] at digit
  exact isdigit_iff.mpr digit

theorem decimalText_free (n : Nat) : nul ∉ decimalText n :=
  fun member => absurd ((decimalText_numeral n).2 nul member) (by decide)

/-- What a leaf must be for its printed text to be read back as it. -/
def Leaf.Printable : Leaf → Prop
  | .lexeme .ident str => Item.Spelled (.word str) str ∧ str.all isname = false
  | .lexeme .name str => Item.Spelled (.word str) str ∧ str.all isname = true
  | .lexeme .str str => LiteralBody '\'' str ∧ nul ∉ str
  | _ => True

/-- `text` shows the leaves with white space between them, the first token read under `argCtxt`. -/
inductive Shows : Bool → List Leaf → List Char → Prop where
  | done {argCtxt} : Shows argCtxt [] []
  | space {argCtxt c leaves text} (space : isspace c = true) (rest : Shows argCtxt leaves text) :
      Shows argCtxt leaves (c :: text)
  | leaf {argCtxt leaf leaves item w text} (spelled : Item.Spelled item w) (free : nul ∉ w) (bounded : item.Bounded text)
      (fits : ∀ pos, leaf.Fits { pos, type := item.type argCtxt, lex := item.lex })
      (rest : Shows (item.type argCtxt == .dot) leaves text) : Shows argCtxt (leaf :: leaves) (w ++ text)

namespace Shows
variable {leaves : List Leaf} {text : List Char}

/-- The parser reads the leaves that its input shows, and then EOS. -/
theorem reads {argCtxt : Bool} (shows_ : Shows argCtxt leaves text) (pos : Pos) :
    ∃ first last, nextToken argCtxt ⟨text, pos⟩ = .ok first ∧ Reads nextToken first leaves last ∧
      last.1.type = .eos := by
  induction shows_ generalizing pos with
  | @done argCtxt =>
    obtain ⟨tok, s', returned, isEos⟩ := nextToken_end (show (skipSpaces ⟨[], pos⟩).rest = [] by rw [skipSpaces_nil]) argCtxt
    exact ⟨_, _, returned, .nil, isEos⟩
  | space space _ ih =>
    rw [nextToken_space space]
    exact ih _
  | leaf spelled _ bounded fits _ ih =>
    obtain ⟨first, last, step, reads, isEos⟩ := ih (pos.addSize _)
    exact ⟨_, last, nextToken_spelled spelled bounded _ pos, .cons (fits pos) step reads, isEos⟩

theorem length_le {argCtxt : Bool} (shows_ : Shows argCtxt leaves text) : leaves.length ≤ text.length := by
  induction shows_ with
  | done => exact le_rfl
  | space _ _ ih => exact ih.trans (Nat.le_succ _)
  | leaf spelled _ _ _ _ ih =>
    have some := spelled.length_pos
    rw [List.length_append, List.length_cons]
    omega

theorem nul_free {argCtxt : Bool} (shows_ : Shows argCtxt leaves text) : nul ∉ text := by
  induction shows_ with
  | done => simp
  | space space _ ih =>
    rw [List.mem_cons, not_or]
    refine ⟨?_, ih⟩
    rintro rfl
    exact absurd space (by decide)
  | leaf _ free _ _ _ ih =>
    rw [List.mem_append, not_or]
    exact ⟨free, ih⟩

theorem spaces {argCtxt : Bool} {w : List Char} (all : ∀ c ∈ w, isspace c = true) (rest : Shows argCtxt leaves text) :
    Shows argCtxt leaves (w ++ text) := by
  induction w with
  | nil => exact rest
  | cons c w ih => exact .space (all c (by simp)) (ih fun d member => all d (by simp [member]))

/-- One punctuation character. -/
theorem punct {argCtxt : Bool} {c : Char} {type : TokenType} (char : ischartoken c = some type)
    (rest : Shows (type == .dot) leaves text) : Shows argCtxt (.token type :: leaves) (c :: text) := by
  refine .leaf (w := [c]) (.punct char) ?_ trivial (fun _ => rfl) rest
  intro member
  rw [← List.mem_singleton.mp member] at char
  cases char

theorem ident {str : CStr} (printable : (Leaf.lexeme .ident str).Printable) (ends : ∀ c ∈ text.head?, isident c = false)
    (rest : Shows false leaves text) : Shows false (.lexeme .ident str :: leaves) (str ++ text) := by
  have type : (Item.word str).type false = .ident := by simp [Item.type, wordType, printable.2]
  refine .leaf printable.1 (word_free printable.1) ends (fun _ => ⟨type, cstr_of_nul_free (word_free printable.1)⟩) ?_
  rw [type]
  exact rest

/-- Behind a dot every word in small letters is a name, `list` among them. -/
theorem name {str : CStr} (printable : (Leaf.lexeme .name str).Printable) (ends : ∀ c ∈ text.head?, isident c = false)
    (rest : Shows false leaves text) : Shows true (.lexeme .name str :: leaves) (str ++ text) := by
  have type : (Item.word str).type true = .name := by simp [Item.type, wordType, printable.2]
  refine .leaf printable.1 (word_free printable.1) ends (fun _ => ⟨type, cstr_of_nul_free (word_free printable.1)⟩) ?_
  rw [type]
  exact rest

theorem list (ends : ∀ c ∈ text.head?, isident c = false) (rest : Shows false leaves text) :
    Shows false (.token .kwList :: leaves) ("list".toList ++ text) :=
  .leaf (.word (by decide) (List.all_eq_true.mp (by decide))) (by decide) ends (fun _ => rfl) rest

theorem str {body : CStr} (printable : (Leaf.lexeme .str body).Printable) (rest : Shows false leaves text) :
    Shows false (.lexeme .str body :: leaves) ('\'' :: (body ++ '\'' :: text)) := by
  have fits : ∀ pos, (Leaf.lexeme .str body).Fits { pos, type := .str, lex := body } :=
    fun _ => ⟨rfl, cstr_of_nul_free printable.2⟩
  have whole : Shows false (.lexeme .str body :: leaves) ('\'' :: (body ++ ['\'']) ++ text) :=
    leaf (.literal (.inl rfl) printable.1) (by simpa using ⟨by decide, printable.2, by decide⟩) trivial fits rest
  simpa using whole

theorem index (idx : UInt8) (ends : ∀ c ∈ text.head?, isdigit c = false) (rest : Shows false leaves text) :
    Shows false (.index idx :: leaves) (decimalText idx.toNat ++ text) := by
  refine .leaf (.number (decimalText_numeral _)) (decimalText_free _) ends (fun pos => ⟨rfl, ?_, ?_⟩) rest
  · rw [Item.lex, cstr_of_nul_free (decimalText_free _)]
    exact decimalText_numeral _
  · rw [Item.lex, cstr_of_nul_free (decimalText_free _)]
    exact Nat.ofDigitChars_ten_toDigits

end Shows

def Printable (leaves : List Leaf) : Prop := ∀ leaf ∈ leaves, leaf.Printable

theorem printable_nil : Printable [] := List.forall_mem_nil _

theorem printable_append {a b : List Leaf} : Printable (a ++ b) ↔ Printable a ∧ Printable b := List.forall_mem_append

theorem printable_cons {leaf : Leaf} {leaves : List Leaf} :
    Printable (leaf :: leaves) ↔ leaf.Printable ∧ Printable leaves := List.forall_mem_cons

section Printing
variable (pretty : Bool)

theorem Shows.layout {argCtxt : Bool} {leaves : List Leaf} {text : List Char} (level : Int)
    (rest : Shows argCtxt leaves text) :
    Shows argCtxt leaves (SourcePrinter.whenPretty pretty (dotsEndl level) ++ text) := by
  refine .spaces ?_ rest
  intro c member
  cases pretty with
  | false => cases member
  | true =>
    simp only [SourcePrinter.whenPretty, if_true, dotsEndl, List.mem_cons, List.mem_flatten] at member
    rcases member with rfl | ⟨w, indent, inside⟩
    · decide
    · rw [List.eq_of_mem_replicate indent] at inside
      have spaces : "    ".toList.all isspace = true := by decide
      exact List.all_eq_true.mp spaces c inside

/-- The layout in front of a closing bracket, absent when the brackets are empty. -/
theorem Shows.closing {argCtxt : Bool} {leaves : List Leaf} {text : List Char} (empty : Bool) (level : Int)
    (rest : Shows argCtxt leaves text) :
    Shows argCtxt leaves (SourcePrinter.whenPretty pretty (if empty then [] else dotsEndl level) ++ text) := by
  cases empty with
  | true => cases pretty <;> exact rest
  | false => exact rest.layout pretty level

theorem Shows.blank {argCtxt : Bool} {leaves : List Leaf} {text : List Char} (rest : Shows argCtxt leaves text) :
    Shows argCtxt leaves (SourcePrinter.whenPretty pretty [' '] ++ text) := by
  cases pretty with
  | false => exact rest
  | true => exact .space (by decide) rest

mutual

theorem TreeNode.shows : (node : TreeNode) → ∀ (level : Int) {leaves text}, Printable node.leaves →
    Shows false leaves text → Shows false (node.leaves ++ leaves) (SourcePrinter.visitTreeNode pretty level node ++ text)
  | .mk name args, level, leaves, text, printable, rest => by
    simp only [TreeNode.leaves, NodeName.leaves, printable_append, printable_cons] at printable
    obtain ⟨⟨printableName, -⟩, -, printableArgs, -⟩ := printable
    simp only [TreeNode.leaves, NodeName.leaves, SourcePrinter.visitTreeNode, SourcePrinter.visitNodeName,
      List.append_assoc, List.cons_append, List.nil_append]
    refine .ident printableName (head_free rfl) (.punct rfl ?_)
    exact args.shows level printableArgs (.punct rfl rest)
  termination_by structural node => node

theorem NodeArgs.shows : (args : NodeArgs) → ∀ (level : Int) {leaves text}, Printable args.leaves →
    Shows false leaves text → Shows false (args.leaves ++ leaves) (SourcePrinter.visitNodeArgs pretty level args ++ text)
  | .listArgs list, level, leaves, text, printable, rest => by
    simp only [NodeArgs.leaves, SourcePrinter.visitNodeArgs, List.append_assoc]
    exact nodeArgList_shows list (level + 1) printable (rest.closing pretty list.isEmpty level)
  | .literalArgs literal, level, leaves, text, printable, rest => by
    simp only [NodeArgs.leaves, Literal.leaves, SourcePrinter.visitNodeArgs, SourcePrinter.visitLiteral,
      List.cons_append, List.append_assoc, List.nil_append]
    exact .str (printable _ (by simp [NodeArgs.leaves, Literal.leaves])) rest
  termination_by structural args => args

theorem nodeArgList_shows : (list : List NodeArg) → ∀ (level : Int) {leaves text},
    Printable (nodeArgListLeaves list) → Shows false leaves text →
    Shows false (nodeArgListLeaves list ++ leaves) (SourcePrinter.printNodeArgs pretty level list ++ text)
  | [], _, _, _, _, rest => rest
  | arg :: list, level, leaves, text, printable, rest => by
    obtain ⟨first, later⟩ := printable_append.mp printable
    simp only [nodeArgListLeaves, SourcePrinter.printNodeArgs, List.append_assoc]
    exact (arg.shows level first (nodeArgList_shows list level later rest)).layout pretty level
  termination_by structural list => list

theorem NodeArg.shows : (arg : NodeArg) → ∀ (level : Int) {leaves text}, Printable arg.leaves →
    Shows false leaves text → Shows false (arg.leaves ++ leaves) (SourcePrinter.visitNodeArg pretty level arg ++ text)
  | .mk name value, level, leaves, text, printable, rest => by
    simp only [NodeArg.leaves, ArgName.leaves, printable_append, printable_cons] at printable
    obtain ⟨-, ⟨printableName, -⟩, -, printableValue⟩ := printable
    have value := value.shows level printableValue rest
    simp only [NodeArg.leaves, ArgName.leaves, SourcePrinter.visitNodeArg, SourcePrinter.visitArgName_eq,
      List.append_assoc, List.cons_append, List.nil_append]
    refine .punct rfl (.name printableName ?_ (Shows.blank pretty (.punct rfl (value.blank pretty))))
    cases pretty <;> exact head_free rfl
  termination_by structural arg => arg

theorem ArgValue.shows : (value : ArgValue) → ∀ (level : Int) {leaves text}, Printable value.leaves →
    Shows false leaves text →
    Shows false (value.leaves ++ leaves) (SourcePrinter.visitArgValue pretty level value ++ text)
  | .nodeValue node, level, _, _, printable, rest => node.shows level printable rest
  | .listValue list, level, _, _, printable, rest => list.shows level printable rest
  | .literalValue literal, level, leaves, text, printable, rest => by
    simp only [ArgValue.leaves, Literal.leaves, SourcePrinter.visitArgValue, SourcePrinter.visitLiteral,
      List.cons_append, List.append_assoc, List.nil_append]
    exact .str (printable _ (by simp [ArgValue.leaves, Literal.leaves])) rest
  termination_by structural value => value

theorem NodeList.shows : (list : NodeList) → ∀ (level : Int) {leaves text}, Printable list.leaves →
    Shows false leaves text → Shows false (list.leaves ++ leaves) (SourcePrinter.visitNodeList pretty level list ++ text)
  | .mk base elems, level, leaves, text, printable, rest => by
    simp only [NodeList.leaves, NodeName.leaves, printable_append, printable_cons] at printable
    obtain ⟨-, -, ⟨printableBase, -⟩, -, -, printableElems, -⟩ := printable
    have last : Shows false (.token .closeSqbrk :: leaves) (']' :: text) := .punct rfl rest
    have elements := listElems_shows elems (level + 1) printableElems (last.closing pretty elems.isEmpty level)
    simp only [NodeList.leaves, NodeName.leaves, SourcePrinter.visitNodeList_eq, SourcePrinter.visitNodeName,
      List.append_assoc, List.cons_append, List.nil_append]
    refine .list (head_free rfl) (.punct rfl (.ident printableBase (head_free rfl) (.punct rfl ?_)))
    exact Shows.blank pretty (.punct rfl elements)
  termination_by structural list => list

theorem listElems_shows : (elems : List ListElem) → ∀ (level : Int) {leaves text},
    Printable (listElemsLeaves elems) → Shows false leaves text →
    Shows false (listElemsLeaves elems ++ leaves) (SourcePrinter.printListElems pretty level elems ++ text)
  | [], _, _, _, _, rest => rest
  | elem :: elems, level, leaves, text, printable, rest => by
    obtain ⟨first, later⟩ := printable_append.mp printable
    simp only [listElemsLeaves, SourcePrinter.printListElems, List.append_assoc]
    exact (elem.shows level first (listElems_shows elems level later rest)).layout pretty level
  termination_by structural elems => elems

theorem ListElem.shows : (elem : ListElem) → ∀ (level : Int) {leaves text}, Printable elem.leaves →
    Shows false leaves text → Shows false (elem.leaves ++ leaves) (SourcePrinter.visitListElem pretty level elem ++ text)
  | .mk index node, level, leaves, text, printable, rest => by
    simp only [ListElem.leaves, printable_append] at printable
    have value := node.shows level printable.2.2.2.2 rest
    simp only [ListElem.leaves, SourcePrinter.visitListElem, SourcePrinter.printIndex_eq, List.append_assoc,
      List.cons_append, List.nil_append]
    refine .punct rfl (.index index (head_free rfl) (.punct rfl ?_))
    exact Shows.blank pretty (.punct rfl (value.blank pretty))
  termination_by structural elem => elem

end

end Printing

theorem init_line (type : InputType) {text : List Char} (clean : nul ∉ text) :
    Input.init type (text ++ [newline]) = { rest := text } := by
  have bytes : inputBytes type (text ++ [newline]) = text ++ [newline] := by
    cases type with
    | text =>
      apply cstr_of_nul_free
      rw [List.mem_append, not_or]
      exact ⟨clean, by decide⟩
    | file => rfl
  rw [Input.init, bytes, trimNewline, List.getLast?_concat, if_pos rfl, List.dropLast_concat]

/-- An input that is read to its end as the leaves of a tree parses to the tree. -/
theorem parseText_of_reads {type : InputType} {input : List Char} {tree : Tree} {first last : Token × Input}
    (step : nextToken false (Input.init type input) = .ok first) (reads : Reads nextToken first tree.leaves last)
    (isEos : last.1.type = .eos) (enough : tree.leaves.length ≤ (Input.init type input).rest.length) :
    parseText type input = .ok tree := by
  obtain ⟨result, s', outcome, rfl, -⟩ := wp_false_iff.mp
    (parse_builds (2 * (Input.init type input).rest.length + 8) (s := { src := Input.init type input }) rfl step reads
      isEos (by omega))
  rw [parseText]
  simp only [outcome]
  rfl

/-- A line that shows the leaves of a tree parses to the tree. -/
theorem parseText_of_shows {tree : Tree} {text : List Char} (shown : Shows false tree.leaves text) (type : InputType) :
    parseText type (text ++ [newline]) = .ok tree := by
  have init := init_line type shown.nul_free
  obtain ⟨first, last, step, reads, isEos⟩ := shown.reads {}
  rw [← init] at step
  exact parseText_of_reads step reads isEos (by rw [init]; exact shown.length_le)

/-- The text printed for a tree whose leaves are printable parses to the tree. -/
theorem parseText_print {tree : Tree} (printable : Printable tree.leaves) (pretty : Bool) (type : InputType) :
    parseText type (SourcePrinter.print pretty tree) = .ok tree := by
  have shown := tree.root.shows pretty 0 printable .done
  rw [List.append_nil, List.append_nil] at shown
  exact parseText_of_shows shown type

/-- What the type of a spelled item says about its text. -/
theorem Item.Spelled.of_type {item : Item} {w : List Char} (spelled : item.Spelled w) (argCtxt : Bool) :
    match item.type argCtxt with
    | .ident => Item.Spelled (.word item.lex) item.lex ∧ item.lex.all isname = false
    | .name => Item.Spelled (.word item.lex) item.lex ∧ item.lex.all isname = true
    | .str => ∃ quote, LiteralBody quote item.lex
    | _ => True := by
  cases spelled with
  | punct char =>
    unfold ischartoken at char
    repeat' split at char
    all_goals first | cases char; trivial | cases char
  | @word c tail first later =>
    have word := Item.Spelled.word first later
    cases small : (c :: tail).all isname with
    | false =>
      simp only [Item.type, wordType, small, Bool.not_false, if_true, Item.lex]
      exact ⟨word, trivial⟩
    | true =>
      simp only [Item.type, wordType, small, Bool.not_true, Bool.false_eq_true, if_false, Item.lex]
      by_cases keyword : (!argCtxt && c :: tail == "list".toList) = true
      · rw [if_pos keyword]
        trivial
      · rw [if_neg keyword]
        exact ⟨word, trivial⟩
  | @literal quote body isQuote valid => exact ⟨quote, valid⟩
  | number => trivial

/-- What a leaf is that was read from a clean text; its literal may have stood between either quotes. -/
def Leaf.Lexed : Leaf → Prop
  | .lexeme .str str => (∃ quote, LiteralBody quote str) ∧ nul ∉ str
  | leaf => leaf.Printable

theorem Leaf.Lexed.printable {leaf : Leaf} (lexed : leaf.Lexed)
    (safe : ∀ body, leaf = .lexeme .str body → bareApostrophe body = false) : leaf.Printable := by
  cases leaf with
  | token => trivial
  | index => trivial
  | lexeme type str =>
    cases type with
    | str =>
      obtain ⟨⟨quote, valid⟩, free⟩ := lexed
      exact ⟨valid.apostrophe (safe str rfl), free⟩
    | _ => exact lexed

private theorem Leaf.lexed_of_token {leaf : Leaf} {argCtxt : Bool} {s s' : Input} {tok : Token}
    (clean : nul ∉ s.rest) (returned : nextToken argCtxt s = .ok (tok, s')) (fits : leaf.Fits tok) : leaf.Lexed := by
  cases leaf with
  | token => trivial
  | index => trivial
  | lexeme type str =>
    obtain ⟨same, text⟩ := fits
    rcases nextToken_ok returned with ⟨rfl, -⟩ | ⟨item, w, spelled, split, rfl, -⟩
    · cases type <;> trivial
    · have free : nul ∉ item.lex := by
        intro member
        have inside : nul ∈ (skipSpaces s).rest := by
          rw [split]
          exact List.mem_append_left _ (spelled.lex_subset member)
        exact clean ((skipSpaces_suffix s).subset inside)
      have exact_ : item.lex = str := by rw [← text, cstr_of_nul_free free]
      have shape := spelled.of_type argCtxt
      change item.type argCtxt = type at same
      rw [same, exact_] at shape
      cases type with
      | ident => exact shape
      | name => exact shape
      | str => exact ⟨shape, exact_ ▸ free⟩
      | _ => trivial

theorem Reads.lexed {leaves : List Leaf} {first last : Token × Input} {argCtxt : Bool} {s : Input}
    (clean : nul ∉ s.rest) (step : nextToken argCtxt s = .ok first) (reads : Reads nextToken first leaves last) :
    ∀ leaf ∈ leaves, leaf.Lexed := by
  induction reads generalizing argCtxt s with
  | nil => exact fun leaf member => absurd member (by simp)
  | @cons tok src leaf leaves view last fits next rest ih =>
    refine List.forall_mem_cons.mpr ⟨Leaf.lexed_of_token clean step fits, ih ?_ next⟩
    exact fun inside => clean ((nextToken_suffix step).subset inside)

/-- A text that parses was read to its end, as the leaves of its tree. -/
theorem reads_of_parseText {type : InputType} {input : List Char} {tree : Tree} (parsed : parseText type input = .ok tree) :
    ∃ first last, nextToken false (Input.init type input) = .ok first ∧ Reads nextToken first tree.leaves last ∧
      last.1.type = .eos := by
  have run := parse_sound nextToken_shrinks (2 * (Input.init type input).rest.length + 8)
    (s := { src := Input.init type input }) rfl (by simp only; omega)
  rw [parseText] at parsed
  cases outcome : Parser.parse nextToken (2 * (Input.init type input).rest.length + 8) { src := Input.init type input }
  with
  | error stop s' => rw [outcome] at parsed; cases parsed
  | ok result s' =>
    rw [outcome] at parsed
    cases parsed
    obtain ⟨⟨first, step, reads⟩, isEos, -⟩ := run.of_ok outcome
    exact ⟨first, _, step, reads, isEos⟩

theorem lexed_of_parseText {type : InputType} {input : List Char} {tree : Tree} (clean : nul ∉ input)
    (parsed : parseText type input = .ok tree) : ∀ leaf ∈ tree.leaves, leaf.Lexed := by
  obtain ⟨first, last, step, reads, -⟩ := reads_of_parseText parsed
  exact reads.lexed (fun inside => clean ((init_within type input).subset inside)) step

/-- A tree that was parsed from a clean text, and whose literals have no bare apostrophe, is
printed to a text that parses to the same tree. -/
theorem print_round_trip {type : InputType} {input : List Char} {tree : Tree} (clean : nul ∉ input)
    (parsed : parseText type input = .ok tree)
    (safe : ∀ body, Leaf.lexeme .str body ∈ tree.leaves → bareApostrophe body = false) (pretty : Bool)
    (type' : InputType) : parseText type' (SourcePrinter.print pretty tree) = .ok tree := by
  refine parseText_print (fun leaf member => ?_) pretty type'
  exact (lexed_of_parseText clean parsed leaf member).printable fun body same => safe body (same ▸ member)

/-- A literal with an escaped apostrophe, through the pretty layout. -/
theorem print_round_trip_literal :
    parseText .file (SourcePrinter.print true ⟨.mk ⟨['A']⟩ (.literalArgs ⟨"it\\'s".toList⟩)⟩) =
      .ok ⟨.mk ⟨['A']⟩ (.literalArgs ⟨"it\\'s".toList⟩)⟩ := by
  have body : LiteralBody '\'' "it\\'s".toList :=
    .plain (by decide) (by decide) (by decide) (.plain (by decide) (by decide) (by decide)
      (.escape (by decide) (.plain (by decide) (by decide) (by decide) .nil)))
  have shown : Shows false (Tree.leaves ⟨.mk ⟨['A']⟩ (.literalArgs ⟨"it\\'s".toList⟩)⟩) "A('it\\'s')".toList :=
    @Shows.ident _ _ ['A'] ⟨.word (by decide) (by simp), by decide⟩ (by rintro c ⟨⟩; decide)
      (.punct rfl (.str ⟨body, by decide⟩ (.punct rfl .done)))
  refine print_round_trip (by decide) (parseText_of_shows shown .text) ?_ true .file
  intro text member
  simp only [Tree.leaves, TreeNode.leaves, NodeName.leaves, NodeArgs.leaves, Literal.leaves, List.cons_append,
    List.nil_append, List.mem_cons, reduceCtorEq, Leaf.lexeme.injEq, false_and, true_and, or_false, false_or,
    List.not_mem_nil] at member
  rw [member]
  decide

end CxxpyTree
