import CxxpyTree.IndentDots

/-! The lines of a dumped tree without their indentation, and the tree that they determine. -/

namespace CxxpyTree
open BasicPrinter

/-- Text in front of the first line. -/
def joinFirst (w : List Char) : List (List Char) → List (List Char)
  | [] => [w]
  | line :: lines => (w ++ line) :: lines

/-- The lines of a text without their indentation; the flag says that a line begins. -/
def stripped : Bool → List Char → List (List Char)
  | true, ' ' :: text => stripped true text
  | _, c :: text => if c = newline then [] :: stripped true text else joinFirst [c] (stripped false text)
  | _, [] => [[]]

def lines : List Write → List (List Char)
  | [] => [[]]
  | .text w :: ws => joinFirst w (lines ws)
  | .endl _ :: ws => [] :: lines ws

section Strip
variable {w text : List Char} {ws : List Write}

theorem joinFirst_joinFirst (v w : List Char) (ls : List (List Char)) : joinFirst v (joinFirst w ls) = joinFirst (v ++ w) ls := by
  cases ls <;> simp [joinFirst]

theorem stripped_cons (c : Char) (text : List Char) : stripped false (c :: text) =
    if c = newline then [] :: stripped true text else joinFirst [c] (stripped false text) := by
  simp [stripped]

theorem joinFirst_ne_nil (w : List Char) (ls : List (List Char)) : joinFirst w ls ≠ [] := by
  cases ls <;> exact List.cons_ne_nil _ _

theorem joinFirst_nil {ls : List (List Char)} (other : ls ≠ []) : joinFirst [] ls = ls := by
  cases ls with
  | nil => exact absurd rfl other
  | cons line ls => rfl

theorem stripped_ne_nil (text : List Char) : stripped false text ≠ [] := by
  cases text with
  | nil => exact List.cons_ne_nil _ _
  | cons c text =>
    rw [stripped_cons]
    split
    · exact List.cons_ne_nil _ _
    · exact joinFirst_ne_nil _ _

theorem stripped_word (line : newline ∉ w) : stripped false (w ++ text) = joinFirst w (stripped false text) := by
  induction w with
  | nil => exact (joinFirst_nil (stripped_ne_nil text)).symm
  | cons c w ih =>
    obtain ⟨first, later⟩ := not_or.mp (mt List.mem_cons.mpr line)
    rw [List.cons_append, stripped_cons, if_neg (Ne.symm first), ih later, joinFirst_joinFirst]
    rfl

theorem stripped_indent (n : Nat) : stripped true ((List.replicate n "    ".toList).flatten ++ text) = stripped true text := by
  induction n with
  | zero => rfl
  | succ n ih =>
    rw [List.replicate_succ, List.flatten_cons, List.append_assoc, ← ih]
    rfl

theorem stripped_firm (firm : Firm w) : stripped true (w ++ text) = stripped false (w ++ text) := by
  obtain ⟨c, rest, rfl, solid, -⟩ := firm
  rw [List.cons_append, stripped_cons, stripped]
  intro _ same
  exact solid same

theorem stripped_output (tidy : Tidy ws) : stripped false (output false ws) = lines ws := by
  induction tidy with
  | nil => rfl
  | text line _ ih => rw [output_text, stripped_word line, ih, lines]
  | @endl level w ws firm _ ih =>
    rw [output_endl, dotsEndlPrint, List.cons_append, stripped_cons, if_pos rfl]
    simp only [Bool.false_eq_true, if_false]
    rw [stripped_indent, output_text, stripped_firm firm, ← output_text, ih]
    rfl

end Strip

/-! The lines of a node, the first one behind some text, up to the line end behind the node. -/

section Lines
variable (verbose : Bool)

/-- What stands in front of the value of a field. -/
def label (attr : CStr) : List Char := if verbose then '.' :: (attr ++ " = ".toList) else []

/-- What stands in front of an element. -/
def elemLabel (k : Nat) : List Char := if verbose then '[' :: (decimalText k ++ "] = ".toList) else []

def listLines (before : List Char) (base : CStr) (empty : Bool) (elems : List (List Char)) : List (List Char) :=
  if empty then [before ++ ("list<".toList ++ (base ++ "> []".toList))]
  else (before ++ ("list<".toList ++ (base ++ "> [".toList))) :: (elems ++ [[']']])

def fieldsLines (before : List Char) (name : CStr) (fields : List (List Char)) : List (List Char) :=
  (before ++ (name ++ ['('])) :: (fields ++ [[')']])

def textLine (before : List Char) (name str : CStr) : List Char := before ++ AstPrinter.textNode name str

mutual

def TreeNode.lines (before : List Char) : TreeNode → List (List Char)
  | .mk name args => fieldsLines before "TreeNode".toList
      (textLine (label verbose "name".toList) "NodeName".toList name.ident :: args.lines (label verbose "args".toList))
  termination_by structural arg => arg

def NodeArgs.lines (before : List Char) : NodeArgs → List (List Char)
  | .listArgs list => fieldsLines before "ListArgs".toList
      (listLines (label verbose "list".toList) "NodeArg".toList list.isEmpty (nodeArgListLines 0 list))
  | .literalArgs literal => fieldsLines before "LiteralArgs".toList
      [textLine (label verbose "literal".toList) "Literal".toList literal.str]
  termination_by structural arg => arg

def nodeArgListLines (k : Nat) : List NodeArg → List (List Char)
  | [] => []
  | arg :: list => arg.lines (elemLabel verbose k) ++ nodeArgListLines (k + 1) list
  termination_by structural list => list

def NodeArg.lines (before : List Char) : NodeArg → List (List Char)
  | .mk name value => fieldsLines before "NodeArg".toList
      (textLine (label verbose "name".toList) "ArgName".toList name.str :: value.lines (label verbose "value".toList))
  termination_by structural arg => arg

def ArgValue.lines (before : List Char) : ArgValue → List (List Char)
  | .nodeValue node => fieldsLines before "NodeValue".toList (node.lines (label verbose "node".toList))
  | .listValue list => fieldsLines before "ListValue".toList (list.lines (label verbose "list".toList))
  | .literalValue literal => fieldsLines before "LiteralValue".toList
      [textLine (label verbose "literal".toList) "Literal".toList literal.str]
  termination_by structural arg => arg

def NodeList.lines (before : List Char) : NodeList → List (List Char)
  | .mk base elems => fieldsLines before "NodeList".toList
      (textLine (label verbose "base".toList) "NodeName".toList base.ident ::
        listLines (label verbose "elems".toList) "ListElem".toList elems.isEmpty (listElemsLines 0 elems))
  termination_by structural arg => arg

def listElemsLines (k : Nat) : List ListElem → List (List Char)
  | [] => []
  | elem :: elems => elem.lines (elemLabel verbose k) ++ listElemsLines (k + 1) elems
  termination_by structural elems => elems

def ListElem.lines (before : List Char) : ListElem → List (List Char)
  | .mk index node => fieldsLines before "ListElem".toList
      ((label verbose "index".toList ++ AstPrinter.typeIndex index) :: node.lines (label verbose "node".toList))
  termination_by structural arg => arg

end

end Lines

/-- The lines of a node that is written behind some text. -/
def LinesOf (writes : List Write) (before : List Char) (ls : List (List Char)) : Prop :=
  ∀ level ws, lines (.text before :: (writes ++ .endl level :: ws)) = ls ++ lines ws

/-- The lines of writes that begin with a line end, if there are any. -/
structure FieldsOf (writes : List Write) (ls : List (List Char)) : Prop where
  shape : writes = [] ∨ ∃ level rest, writes = .endl level :: rest
  lines : ∀ level ws, lines (writes ++ .endl level :: ws) = [] :: (ls ++ lines ws)

section Written
variable {verbose : Bool} {level : Int} {a b : List Write} {ls ls' : List (List Char)} {before : List Char}

theorem lines_ne_nil (ws : List Write) : lines ws ≠ [] := by
  cases ws with
  | nil => exact List.cons_ne_nil _ _
  | cons write ws =>
    cases write with
    | text w => exact joinFirst_ne_nil w _
    | endl level => exact List.cons_ne_nil _ _

theorem lines_empty_text (ws : List Write) : lines (.text [] :: ws) = lines ws := joinFirst_nil (lines_ne_nil ws)

theorem fieldsOf_nil : FieldsOf [] [] := ⟨.inl rfl, fun _ _ => rfl⟩

theorem FieldsOf.append (first : FieldsOf a ls) (second : FieldsOf b ls') : FieldsOf (a ++ b) (ls ++ ls') := by
  constructor
  · rcases first.shape with rfl | ⟨level, rest, rfl⟩
    · exact second.shape
    · exact .inr ⟨level, rest ++ b, rfl⟩
  · intro level ws
    rw [List.append_assoc]
    have behind := second.lines level ws
    rcases second.shape with rfl | ⟨level', rest, rfl⟩
    · rw [List.nil_append, first.lines level ws, List.append_assoc]
      exact congrArg (fun tail => [] :: (ls ++ tail)) (List.cons.inj behind).2
    · rw [List.cons_append, first.lines level', List.append_assoc]
      exact congrArg (fun tail => [] :: (ls ++ tail)) (List.cons.inj behind).2

theorem linesOf_textNode (name str : CStr) : LinesOf (textNode name str) before [textLine before name str] := by
  intro level ws
  simp [textNode, lines, joinFirst, textLine]

theorem linesOf_fieldsNode (name : CStr) (fields : FieldsOf a ls) :
    LinesOf (fieldsNode level name a) before (fieldsLines before name ls) := by
  intro level' ws
  have inner := fields.lines level (.text [')'] :: .endl level' :: ws)
  simp only [fieldsNode, List.cons_append, List.append_assoc, List.nil_append, lines, inner, joinFirst, List.append_nil, fieldsLines]

theorem fieldsOf_attr (name : CStr) (value : LinesOf a (label verbose name) ls) :
    FieldsOf (attr verbose level name ++ a) ls := by
  constructor
  · exact .inr ⟨_, _, rfl⟩
  · intro level' ws
    have shown := value level' ws
    cases verbose with
    | false =>
      rw [label, if_neg Bool.false_ne_true, lines_empty_text] at shown
      exact congrArg (List.cons []) shown
    | true => exact congrArg (List.cons []) shown

theorem fieldsOf_elem {k : Nat} (elem : LinesOf a (elemLabel verbose k) ls) :
    FieldsOf (elemWrites verbose level k ++ a) ls := by
  constructor
  · exact .inr ⟨_, _, rfl⟩
  · intro level' ws
    have shown := elem level' ws
    cases verbose with
    | false =>
      rw [elemLabel, if_neg Bool.false_ne_true, lines_empty_text] at shown
      exact congrArg (List.cons []) shown
    | true => exact congrArg (List.cons []) shown

theorem linesOf_list (base : CStr) (empty : Bool) (none : empty = true → a = []) (elems : FieldsOf a ls) :
    LinesOf (listWrites level base empty a) before (listLines before base empty ls) := by
  intro level' ws
  cases empty with
  | true =>
    rw [none rfl]
    simp [listWrites, listLines, lines, joinFirst]
  | false =>
    have inner := elems.lines level (.text [']'] :: .endl level' :: ws)
    simp [listWrites, listLines, lines, joinFirst, inner]

mutual

theorem TreeNode.linesOf (level : Int) : (arg : TreeNode) → ∀ before,
    LinesOf (visitTreeNode verbose level arg) before (arg.lines verbose before)
  | .mk name args, before => by
    rw [visitTreeNode, TreeNode.lines, List.append_assoc _ (attr verbose level "args".toList)]
    exact linesOf_fieldsNode _ ((fieldsOf_attr _ (linesOf_textNode _ _)).append
      (fieldsOf_attr _ (args.linesOf (level + 1) _)))
  termination_by structural arg => arg

theorem NodeArgs.linesOf (level : Int) : (arg : NodeArgs) → ∀ before,
    LinesOf (visitNodeArgs verbose level arg) before (arg.lines verbose before)
  | .listArgs list, before => by
    rw [visitNodeArgs, NodeArgs.lines]
    refine linesOf_fieldsNode _ (fieldsOf_attr _ (linesOf_list _ _ (fun none => ?_) (nodeArgList_fieldsOf (level + 1) 0 list)))
    rw [List.isEmpty_iff.mp none, printNodeArgs]
  | .literalArgs literal, before => by
    rw [visitNodeArgs, NodeArgs.lines]
    exact linesOf_fieldsNode _ (fieldsOf_attr _ (linesOf_textNode _ _))
  termination_by structural arg => arg

theorem nodeArgList_fieldsOf (level : Int) (k : Nat) : (list : List NodeArg) →
    FieldsOf (printNodeArgs verbose level k list) (nodeArgListLines verbose k list)
  | [] => fieldsOf_nil
  | arg :: list => by
    rw [printNodeArgs, nodeArgListLines]
    exact (fieldsOf_elem (arg.linesOf (level + 1) _)).append (nodeArgList_fieldsOf level (k + 1) list)
  termination_by structural list => list

theorem NodeArg.linesOf (level : Int) : (arg : NodeArg) → ∀ before,
    LinesOf (visitNodeArg verbose level arg) before (arg.lines verbose before)
  | .mk name value, before => by
    rw [visitNodeArg, NodeArg.lines, List.append_assoc _ (attr verbose level "value".toList)]
    exact linesOf_fieldsNode _ ((fieldsOf_attr _ (linesOf_textNode _ _)).append
      (fieldsOf_attr _ (value.linesOf (level + 1) _)))
  termination_by structural arg => arg

theorem ArgValue.linesOf (level : Int) : (arg : ArgValue) → ∀ before,
    LinesOf (visitArgValue verbose level arg) before (arg.lines verbose before)
  | .nodeValue node, before => by
    rw [visitArgValue, ArgValue.lines]
    exact linesOf_fieldsNode _ (fieldsOf_attr _ (node.linesOf (level + 1) _))
  | .listValue list, before => by
    rw [visitArgValue, ArgValue.lines]
    exact linesOf_fieldsNode _ (fieldsOf_attr _ (list.linesOf (level + 1) _))
  | .literalValue literal, before => by
    rw [visitArgValue, ArgValue.lines]
    exact linesOf_fieldsNode _ (fieldsOf_attr _ (linesOf_textNode _ _))
  termination_by structural arg => arg

theorem NodeList.linesOf (level : Int) : (arg : NodeList) → ∀ before,
    LinesOf (visitNodeList verbose level arg) before (arg.lines verbose before)
  | .mk base elems, before => by
    rw [visitNodeList, NodeList.lines, List.append_assoc _ (attr verbose level "elems".toList)]
    refine linesOf_fieldsNode _ ((fieldsOf_attr _ (linesOf_textNode _ _)).append
      (fieldsOf_attr _ (linesOf_list _ _ (fun none => ?_) (listElems_fieldsOf (level + 1) 0 elems))))
    rw [List.isEmpty_iff.mp none, printListElems]
  termination_by structural arg => arg

theorem listElems_fieldsOf (level : Int) (k : Nat) : (elems : List ListElem) →
    FieldsOf (printListElems verbose level k elems) (listElemsLines verbose k elems)
  | [] => fieldsOf_nil
  | elem :: elems => by
    rw [printListElems, listElemsLines]
    exact (fieldsOf_elem (elem.linesOf (level + 1) _)).append (listElems_fieldsOf level (k + 1) elems)
  termination_by structural elems => elems

theorem ListElem.linesOf (level : Int) : (arg : ListElem) → ∀ before,
    LinesOf (visitListElem verbose level arg) before (arg.lines verbose before)
  | .mk index node, before => by
    have number : ∀ before, LinesOf (typeIndex index) before [before ++ AstPrinter.typeIndex index] := by
      intro before level ws
      simp [typeIndex, CxxpyTree.lines, joinFirst]
    rw [visitListElem, ListElem.lines, List.append_assoc _ (attr verbose level "node".toList)]
    exact linesOf_fieldsNode _ ((fieldsOf_attr _ (number _)).append (fieldsOf_attr _ (node.linesOf (level + 1) _)))
  termination_by structural arg => arg

end

end Written

/-! The lines can be read back, whatever lines follow them. -/

section Decoding
variable {verbose : Bool} {before : List Char} {r r' fields fields' : List (List Char)}

theorem fieldsLines_decode {name name' : CStr}
    (same : fieldsLines before name fields ++ r = fieldsLines before name' fields' ++ r') :
    name = name' ∧ fields ++ [')'] :: r = fields' ++ [')'] :: r' := by
  simp only [fieldsLines, List.cons_append, List.append_assoc, List.nil_append] at same
  obtain ⟨first, rest⟩ := List.cons.inj same
  exact ⟨List.append_cancel_right (List.append_cancel_left first), rest⟩

theorem textLine_decode {name str str' : CStr} (same : textLine before name str = textLine before name str') : str = str' := by
  have inner := List.append_cancel_left (List.append_cancel_left same)
  simp only [AstPrinter.repr, List.cons.injEq, true_and, List.cons_append, List.append_cancel_right_eq] at inner
  exact inner

theorem typeIndex_decode {index index' : UInt8}
    (same : before ++ AstPrinter.typeIndex index = before ++ AstPrinter.typeIndex index') : index = index' := by
  have inner := List.append_cancel_left same
  simp only [AstPrinter.typeIndex, AstPrinter.repr, List.cons.injEq, true_and, List.append_cancel_right_eq] at inner
  have value := congrArg (Nat.ofDigitChars 10 · 0) inner
  simp only [decimalText, Nat.ofDigitChars_ten_toDigits] at value
  exact UInt8.toNat_inj.mp value

/-- The first line of a list says if it is empty. -/
theorem listLines_decode {base : CStr} {empty empty' : Bool}
    (same : listLines before base empty fields ++ r = listLines before base empty' fields' ++ r') :
    empty = empty' ∧ (empty = true → r = r') ∧ (empty = false → fields ++ [']'] :: r = fields' ++ [']'] :: r') := by
  cases empty <;> cases empty' <;> simp only [listLines, Bool.false_eq_true, if_true, if_false, List.cons_append, List.append_assoc,
    List.nil_append, List.cons.injEq, List.append_cancel_left_eq] at same
  · exact ⟨rfl, by simp, fun _ => same.2⟩
  · exact absurd same.1 (by decide)
  · exact absurd same.1 (by decide)
  · exact ⟨rfl, fun _ => same.2, by simp⟩

mutual

theorem TreeNode.lines_decode : (arg : TreeNode) → ∀ (arg' : TreeNode) {before r r'},
    arg.lines verbose before ++ r = arg'.lines verbose before ++ r' → arg = arg' ∧ r = r'
  | .mk name args, .mk name' args', before, r, r', same => by
    simp only [TreeNode.lines] at same
    obtain ⟨-, fields⟩ := fieldsLines_decode same
    obtain ⟨first, rest⟩ := List.cons.inj fields
    obtain ⟨rfl, closing⟩ := args.lines_decode args' rest
    obtain ⟨ident⟩ := name
    obtain ⟨ident'⟩ := name'
    cases textLine_decode first
    exact ⟨rfl, (List.cons.inj closing).2⟩
  termination_by structural arg => arg

theorem NodeArgs.lines_decode : (arg : NodeArgs) → ∀ (arg' : NodeArgs) {before r r'},
    arg.lines verbose before ++ r = arg'.lines verbose before ++ r' → arg = arg' ∧ r = r'
  | .listArgs list, .listArgs list', before, r, r', same => by
    simp only [NodeArgs.lines] at same
    obtain ⟨-, fields⟩ := fieldsLines_decode same
    obtain ⟨empty, none, some⟩ := listLines_decode fields
    cases list with
    | nil =>
      rw [List.isEmpty_iff.mp empty.symm]
      exact ⟨rfl, (List.cons.inj (none rfl)).2⟩
    | cons arg list =>
      obtain ⟨rfl, closing⟩ := nodeArgList_lines_decode 0 (arg :: list) list' (some rfl)
      exact ⟨rfl, (List.cons.inj closing).2⟩
  | .literalArgs literal, .literalArgs literal', before, r, r', same => by
    simp only [NodeArgs.lines] at same
    obtain ⟨-, fields⟩ := fieldsLines_decode same
    obtain ⟨first, closing⟩ := List.cons.inj fields
    obtain ⟨str⟩ := literal
    obtain ⟨str'⟩ := literal'
    cases textLine_decode first
    exact ⟨rfl, (List.cons.inj closing).2⟩
  | .listArgs list, .literalArgs literal', before, r, r', same => by
    simp only [NodeArgs.lines] at same
    exact absurd (fieldsLines_decode same).1 (by decide)
  | .literalArgs literal, .listArgs list', before, r, r', same => by
    simp only [NodeArgs.lines] at same
    exact absurd (fieldsLines_decode same).1 (by decide)
  termination_by structural arg => arg

/-- The elements of a list up to the line that closes it. -/
theorem nodeArgList_lines_decode (k : Nat) : (list : List NodeArg) → ∀ (list' : List NodeArg) {r r'},
    nodeArgListLines verbose k list ++ [']'] :: r = nodeArgListLines verbose k list' ++ [']'] :: r' → list = list' ∧ r = r'
  | [], [], r, r', same => ⟨rfl, (List.cons.inj same).2⟩
  | arg :: list, arg' :: list', r, r', same => by
    simp only [nodeArgListLines, List.append_assoc] at same
    obtain ⟨rfl, rest⟩ := arg.lines_decode arg' same
    obtain ⟨rfl, closing⟩ := nodeArgList_lines_decode (k + 1) list list' rest
    exact ⟨rfl, closing⟩
  | [], .mk name value :: list', r, r', same => by
    simp only [nodeArgListLines, NodeArg.lines, fieldsLines, List.cons_append, List.nil_append] at same
    cases verbose <;> exact absurd (List.cons.inj same).1 (by simp [elemLabel])
  | .mk name value :: list, [], r, r', same => by
    simp only [nodeArgListLines, NodeArg.lines, fieldsLines, List.cons_append, List.nil_append] at same
    cases verbose <;> exact absurd (List.cons.inj same).1 (by simp [elemLabel])
  termination_by structural list => list

theorem NodeArg.lines_decode : (arg : NodeArg) → ∀ (arg' : NodeArg) {before r r'},
    arg.lines verbose before ++ r = arg'.lines verbose before ++ r' → arg = arg' ∧ r = r'
  | .mk name value, .mk name' value', before, r, r', same => by
    simp only [NodeArg.lines] at same
    obtain ⟨-, fields⟩ := fieldsLines_decode same
    obtain ⟨first, rest⟩ := List.cons.inj fields
    obtain ⟨rfl, closing⟩ := value.lines_decode value' rest
    obtain ⟨str⟩ := name
    obtain ⟨str'⟩ := name'
    cases textLine_decode first
    exact ⟨rfl, (List.cons.inj closing).2⟩
  termination_by structural arg => arg

theorem ArgValue.lines_decode : (arg : ArgValue) → ∀ (arg' : ArgValue) {before r r'},
    arg.lines verbose before ++ r = arg'.lines verbose before ++ r' → arg = arg' ∧ r = r'
  | .nodeValue node, .nodeValue node', before, r, r', same => by
    simp only [ArgValue.lines] at same
    obtain ⟨-, fields⟩ := fieldsLines_decode same
    obtain ⟨rfl, closing⟩ := node.lines_decode node' fields
    exact ⟨rfl, (List.cons.inj closing).2⟩
  | .listValue list, .listValue list', before, r, r', same => by
    simp only [ArgValue.lines] at same
    obtain ⟨-, fields⟩ := fieldsLines_decode same
    obtain ⟨rfl, closing⟩ := list.lines_decode list' fields
    exact ⟨rfl, (List.cons.inj closing).2⟩
  | .literalValue literal, .literalValue literal', before, r, r', same => by
    simp only [ArgValue.lines] at same
    obtain ⟨-, fields⟩ := fieldsLines_decode same
    obtain ⟨first, closing⟩ := List.cons.inj fields
    obtain ⟨str⟩ := literal
    obtain ⟨str'⟩ := literal'
    cases textLine_decode first
    exact ⟨rfl, (List.cons.inj closing).2⟩
  | .nodeValue node, .listValue list', before, r, r', same => by
    simp only [ArgValue.lines] at same
    exact absurd (fieldsLines_decode same).1 (by decide)
  | .nodeValue node, .literalValue literal', before, r, r', same => by
    simp only [ArgValue.lines] at same
    exact absurd (fieldsLines_decode same).1 (by decide)
  | .listValue list, .nodeValue node', before, r, r', same => by
    simp only [ArgValue.lines] at same
    exact absurd (fieldsLines_decode same).1 (by decide)
  | .listValue list, .literalValue literal', before, r, r', same => by
    simp only [ArgValue.lines] at same
    exact absurd (fieldsLines_decode same).1 (by decide)
  | .literalValue literal, .nodeValue node', before, r, r', same => by
    simp only [ArgValue.lines] at same
    exact absurd (fieldsLines_decode same).1 (by decide)
  | .literalValue literal, .listValue list', before, r, r', same => by
    simp only [ArgValue.lines] at same
    exact absurd (fieldsLines_decode same).1 (by decide)
  termination_by structural arg => arg

theorem NodeList.lines_decode : (arg : NodeList) → ∀ (arg' : NodeList) {before r r'},
    arg.lines verbose before ++ r = arg'.lines verbose before ++ r' → arg = arg' ∧ r = r'
  | .mk base elems, .mk base' elems', before, r, r', same => by
    simp only [NodeList.lines] at same
    obtain ⟨-, fields⟩ := fieldsLines_decode same
    obtain ⟨first, rest⟩ := List.cons.inj fields
    obtain ⟨empty, none, some⟩ := listLines_decode rest
    obtain ⟨ident⟩ := base
    obtain ⟨ident'⟩ := base'
    cases textLine_decode first
    cases elems with
    | nil =>
      rw [List.isEmpty_iff.mp empty.symm]
      exact ⟨rfl, (List.cons.inj (none rfl)).2⟩
    | cons elem elems =>
      obtain ⟨rfl, closing⟩ := listElems_lines_decode 0 (elem :: elems) elems' (some rfl)
      exact ⟨rfl, (List.cons.inj closing).2⟩
  termination_by structural arg => arg

theorem listElems_lines_decode (k : Nat) : (elems : List ListElem) → ∀ (elems' : List ListElem) {r r'},
    listElemsLines verbose k elems ++ [']'] :: r = listElemsLines verbose k elems' ++ [']'] :: r' → elems = elems' ∧ r = r'
  | [], [], r, r', same => ⟨rfl, (List.cons.inj same).2⟩
  | elem :: elems, elem' :: elems', r, r', same => by
    simp only [listElemsLines, List.append_assoc] at same
    obtain ⟨rfl, rest⟩ := elem.lines_decode elem' same
    obtain ⟨rfl, closing⟩ := listElems_lines_decode (k + 1) elems elems' rest
    exact ⟨rfl, closing⟩
  | [], .mk index node :: elems', r, r', same => by
    simp only [listElemsLines, ListElem.lines, fieldsLines, List.cons_append, List.nil_append] at same
    cases verbose <;> exact absurd (List.cons.inj same).1 (by simp [elemLabel])
  | .mk index node :: elems, [], r, r', same => by
    simp only [listElemsLines, ListElem.lines, fieldsLines, List.cons_append, List.nil_append] at same
    cases verbose <;> exact absurd (List.cons.inj same).1 (by simp [elemLabel])
  termination_by structural elems => elems

theorem ListElem.lines_decode : (arg : ListElem) → ∀ (arg' : ListElem) {before r r'},
    arg.lines verbose before ++ r = arg'.lines verbose before ++ r' → arg = arg' ∧ r = r'
  | .mk index node, .mk index' node', before, r, r', same => by
    simp only [ListElem.lines] at same
    obtain ⟨-, fields⟩ := fieldsLines_decode same
    obtain ⟨first, rest⟩ := List.cons.inj fields
    obtain ⟨rfl, closing⟩ := node.lines_decode node' rest
    cases typeIndex_decode first
    exact ⟨rfl, (List.cons.inj closing).2⟩
  termination_by structural arg => arg

end

end Decoding

section Determined
variable {verbose : Bool}

theorem lines_endl (level : Int) (ws : List Write) : lines (ws ++ [.endl level]) = lines ws ++ [[]] := by
  induction ws with
  | nil => rfl
  | cons write ws ih =>
    cases write with
    | text w =>
      rw [List.cons_append, lines, lines, ih]
      cases shape : lines ws with
      | nil => exact absurd shape (lines_ne_nil ws)
      | cons line ls => rfl
    | endl _ => rw [List.cons_append, lines, lines, ih, List.cons_append]

theorem Tree.linesOf (tree : Tree) : lines (visitTree verbose 0 tree) =
    fieldsLines [] "Tree".toList (tree.root.lines verbose (label verbose "root".toList)) := by
  have shown : LinesOf (visitTree verbose 0 tree) [] _ := linesOf_fieldsNode _ (fieldsOf_attr _ (tree.root.linesOf 1 _))
  have whole := shown 0 []
  rw [lines_empty_text, lines_endl] at whole
  exact List.append_cancel_right whole

theorem Tree.tidy {tree : Tree} (line : OneLine tree.leaves) : Tidy (visitTree verbose 0 tree) := by
  have tidy := (@Tree.opens verbose 0 tree line).1 [] .nil
  rwa [List.append_nil] at tidy

theorem Tree.undotted {tree : Tree} (line : OneLine tree.leaves) (dots : Bool) :
    undot (BasicPrinter.print verbose dots tree) = BasicPrinter.print verbose false tree := by
  exact undot_output (tree.tidy line) dots [newline]

theorem Tree.lines_inj {tree tree' : Tree} (same : lines (visitTree verbose 0 tree) = lines (visitTree verbose 0 tree')) :
    tree = tree' := by
  rw [tree.linesOf, tree'.linesOf] at same
  have whole := congrArg (· ++ []) same
  obtain ⟨-, fields⟩ := fieldsLines_decode whole
  obtain ⟨root⟩ := tree
  obtain ⟨root'⟩ := tree'
  obtain ⟨rfl, -⟩ := root.lines_decode root' fields
  rfl

end Determined

/-- The text of `Printer` or of `Dumper` determines the tree that was parsed, with dots or without. -/
theorem dump_determines {type type' : InputType} {input input' : List Char} {tree tree' : Tree}
    (parsed : parseText type input = .ok tree) (parsed' : parseText type' input' = .ok tree') {verbose dots dots' : Bool}
    (same : BasicPrinter.print verbose dots tree = BasicPrinter.print verbose dots' tree') : tree = tree' := by
  have line := oneLine_of_parseText parsed
  have line' := oneLine_of_parseText parsed'
  have plain : BasicPrinter.print verbose false tree = BasicPrinter.print verbose false tree' := by
    rw [← Tree.undotted line dots, same, Tree.undotted line' dots']
  have outputs := List.append_cancel_right plain
  apply Tree.lines_inj
  rw [← stripped_output (tree.tidy line), ← stripped_output (tree'.tidy line'), outputs]

/-- A text on one line, and another on three. -/
theorem dump_determines_nested :
    ∃ tree tree', parseText .text ("A(.a=B())".toList ++ [newline]) = .ok tree ∧
      parseText .file ("A(".toList ++ newline :: "    .a = B()".toList ++ newline :: ")".toList ++ [newline]) = .ok tree' ∧
      BasicPrinter.print false true tree = BasicPrinter.print false true tree' ∧ tree = tree' := by
  have printable : Printable nestedTree.leaves := by
    have lexed := lexed_of_parseText (by decide) parseText_nested
    refine fun leaf member => (lexed leaf member).printable fun body same => ?_
    subst same
    simp [nestedTree, Tree.leaves, TreeNode.leaves, NodeName.leaves, NodeArgs.leaves, nodeArgListLeaves, NodeArg.leaves,
      ArgName.leaves, ArgValue.leaves] at member
  have pretty := parseText_print printable true .file
  have same : BasicPrinter.print false true nestedTree = BasicPrinter.print false true nestedTree := rfl
  exact ⟨nestedTree, nestedTree, parseText_nested, pretty, same, dump_determines parseText_nested pretty same⟩

end CxxpyTree
