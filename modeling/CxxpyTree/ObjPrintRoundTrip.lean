import CxxpyTree.DumpRoundTrip
import CxxpyTree.StoredPrinter
import CxxpyTree.VerbosePrint

/-! What is printed about a type or a value is a tree expression again, on one line: the parser reads
it, and the tree tells of which type it was. -/

namespace CxxpyTree

/-! The text of a dumped node on one line, with a blank between its fields. -/

mutual

def Dump.inline : Dump → List Char
  | .text type str => AstPrinter.textNode type str
  | .fields type fields => type ++ '(' :: (inlineFields 0 fields ++ [')'])
  termination_by structural node => node

def inlineFields (n : Nat) : List DumpField → List Char
  | [] => []
  | field :: fields => (if n = 0 then [] else [' ']) ++ (field.inline ++ inlineFields (n + 1) fields)
  termination_by structural fields => fields

def DumpField.inline : DumpField → List Char
  | .text name str => '.' :: (name ++ " = ".toList ++ AstPrinter.repr str)
  | .node name node => '.' :: (name ++ " = ".toList ++ node.inline)
  | .list name base elems =>
    '.' :: (name ++ " = ".toList ++ ("list<".toList ++ (base ++ ("> [".toList ++ (inlineElems 0 elems ++ [']'])))))
  termination_by structural field => field

def inlineElems (n : Nat) : List Dump → List Char
  | [] => []
  | elem :: elems =>
    (if n = 0 then [] else [' ']) ++ '[' :: (decimalText n ++ "] = ".toList ++ (elem.inline ++ inlineElems (n + 1) elems))
  termination_by structural elems => elems

end

section Shown
variable {leaves : List Leaf} {text : List Char}

theorem Shows.gap (n : Nat) (rest : Shows false leaves text) :
    Shows false leaves ((if n = 0 then [] else [' ']) ++ text) := by
  split
  · exact rest
  · exact .space (by decide) rest

/-- ` = ` in front of a value. -/
theorem Shows.assign {argCtxt : Bool} (rest : Shows false leaves text) :
    Shows argCtxt (.token .equal :: leaves) (" = ".toList ++ text) :=
  .space (by decide) (.punct rfl (.space (by decide) rest))

/-- `.name = ` in front of a value. -/
theorem Shows.member {name : CStr} (printable : (Leaf.lexeme .name name).Printable) (rest : Shows false leaves text) :
    Shows false (.token .dot :: .lexeme .name name :: .token .equal :: leaves) ('.' :: (name ++ (" = ".toList ++ text))) :=
  .punct rfl (.name printable (head_free rfl) rest.assign)

mutual

theorem Dump.inline_shows : (node : Dump) → ∀ {leaves text}, Printable (node.leaves printedIndex) →
    Shows false leaves text → Shows false (node.leaves printedIndex ++ leaves) (node.inline ++ text)
  | .text type str, leaves, text, printable, rest => by
    -- a text has no layout in either print
    have shown := (Dump.text type str).shows 0 printable rest
    rwa [Dump.print] at shown
  | .fields type fields, leaves, text, printable, rest => by
    simp only [Dump.leaves, printable_cons, printable_append] at printable
    obtain ⟨isType, -, areFields, -⟩ := printable
    simp only [Dump.leaves, Dump.inline, List.append_assoc, List.cons_append, List.nil_append]
    apply Shows.ident isType (head_free rfl)
    apply Shows.punct rfl
    exact inlineFields_shows 0 fields areFields (.punct rfl rest)
  termination_by structural node => node

theorem inlineFields_shows (n : Nat) : (fields : List DumpField) → ∀ {leaves text},
    Printable (dumpFieldsLeaves printedIndex fields) → Shows false leaves text →
    Shows false (dumpFieldsLeaves printedIndex fields ++ leaves) (inlineFields n fields ++ text)
  | [], _, _, _, rest => rest
  | field :: fields, leaves, text, printable, rest => by
    obtain ⟨first, later⟩ := printable_append.mp printable
    simp only [dumpFieldsLeaves, inlineFields, List.append_assoc]
    exact (field.inline_shows first (inlineFields_shows (n + 1) fields later rest)).gap n
  termination_by structural fields => fields

theorem DumpField.inline_shows : (field : DumpField) → ∀ {leaves text}, Printable (field.leaves printedIndex) →
    Shows false leaves text → Shows false (field.leaves printedIndex ++ leaves) (field.inline ++ text)
  | .text name str, leaves, text, printable, rest => by
    simp only [DumpField.leaves, printable_cons] at printable
    obtain ⟨-, isName, -, isText, -⟩ := printable
    simp only [DumpField.leaves, DumpField.inline, AstPrinter.repr, List.append_assoc, List.cons_append,
      List.nil_append]
    exact .member isName (.str isText rest)
  | .node name node, leaves, text, printable, rest => by
    simp only [DumpField.leaves, printable_cons] at printable
    obtain ⟨-, isName, -, isNode⟩ := printable
    simp only [DumpField.leaves, DumpField.inline, List.append_assoc, List.cons_append]
    exact .member isName (node.inline_shows isNode rest)
  | .list name base elems, leaves, text, printable, rest => by
    simp only [DumpField.leaves, printable_cons, printable_append] at printable
    obtain ⟨-, isName, -, -, -, isBase, -, -, areElems, -⟩ := printable
    have inner := inlineElems_shows 0 elems areElems (.punct (c := ']') rfl rest)
    simp only [DumpField.leaves, DumpField.inline, List.append_assoc, List.cons_append, List.nil_append]
    apply Shows.member isName
    apply @Shows.list _ ('<' :: (base ++ ("> [".toList ++ (inlineElems 0 elems ++ ']' :: text)))) (head_free rfl)
    apply Shows.punct rfl
    apply Shows.ident isBase (head_free rfl)
    exact .punct rfl (.space (by decide) (.punct rfl inner))
  termination_by structural field => field

theorem inlineElems_shows (n : Nat) : (elems : List Dump) → ∀ {leaves text},
    Printable (dumpElemsLeaves printedIndex n elems) → Shows false leaves text →
    Shows false (dumpElemsLeaves printedIndex n elems ++ leaves) (inlineElems n elems ++ text)
  | [], _, _, _, rest => rest
  | elem :: elems, leaves, text, printable, rest => by
    simp only [dumpElemsLeaves, printable_cons, printable_append] at printable
    obtain ⟨-, -, -, -, first, later⟩ := printable
    have shown := elem.inline_shows first (inlineElems_shows (n + 1) elems later rest)
    simp only [dumpElemsLeaves, inlineElems, List.append_assoc, List.cons_append]
    apply Shows.gap
    apply Shows.punct rfl
    apply Shows.printedIndex n (head_free rfl)
    exact .punct rfl shown.assign
  termination_by structural elems => elems

end

/-- A node whose lists are counted is read back from its line as the tree that encodes it. -/
theorem parseText_inline {node : Dump} (printable : Printable (node.leaves printedIndex)) (counted : node.Counted)
    (type : InputType) : parseText type (node.inline ++ [newline]) = .ok ⟨node.toTree⟩ := by
  have shown := node.inline_shows printable .done
  rw [List.append_nil, List.append_nil] at shown
  apply parseText_of_shows
  rw [Tree.leaves, Dump.toTree_leaves]
  apply shown.covered
  exact node.leaves_related (fun _ _ => id) (fun _ small => printedIndex_covers small) counted

end Shown

namespace Obj

variable {ι : Type}

/-! The nodes whose lines are printed. -/

/-- A verbose print names the type of a C pointer as a node. -/
def cptrTypeField (verbose : Bool) (c : CptrType) : DumpField :=
  if verbose then .node "cptr_type".toList (.text "CptrType".toList c.name) else .text "cptr_type".toList c.name

def objDump (name : CStr) (kind : String) (inner : CStr) (fields : List DumpField) : Dump :=
  .fields name [.text "type".toList kind.toList, .node kind.toList (.fields inner fields)]

def objTypeDump (verbose : Bool) (astField : ι → Option DumpField) : ObjType ι → Option Dump
  | .node astType => do return objDump "ObjType".toList "node" "NodeObjType".toList [← astField astType]
  | .list astType => do return objDump "ObjType".toList "list" "ListObjType".toList [← astField astType]
  | .cptr c => return objDump "ObjType".toList "cptr" "CptrObjType".toList [cptrTypeField verbose c]

def argDefDump (verbose : Bool) (astField : ι → Option DumpField) (arg : ArgDef ι) : Option Dump := do
  let type ← objTypeDump verbose astField arg.argType
  return .fields "ArgDef".toList [.text "arg_name".toList arg.argName, .node "arg_type".toList type]

def argDefsDump (verbose : Bool) (astField : ι → Option DumpField) : List (ArgDef ι) → Option (List Dump)
  | [] => some []
  | arg :: args => do return (← argDefDump verbose astField arg) :: (← argDefsDump verbose astField args)

def baseDump (astDump : ι → Option Dump) : Option ι → Option Dump
  | some base => astDump base
  | none => some (.fields "NullAstType".toList [])

section Table
variable (t : TypeTable ι)

def verboseDump : (fuel : Nat) → ι → Option Dump
  | 0, _ => none
  | fuel + 1, i => do
    let base ← baseDump (verboseDump fuel) (t.astType i).base
    let args ← argDefsDump true (fun j => (verboseDump fuel j).map (.node "ast_type".toList)) (t.astType i).args
    return .fields "NodeAstType".toList
      [.text "name".toList (t.astType i).name, .node "base".toList base, .list "args".toList "ArgDef".toList args]

def astTypeField (verbose : Bool) (fuel : Nat) (i : ι) : Option DumpField :=
  if verbose then (verboseDump t fuel i).map (.node "ast_type".toList) else some (.text "ast_type".toList (t.astType i).name)

def ObjType.dump (verbose : Bool) (fuel : Nat) (obj : ObjType ι) : Option Dump :=
  objTypeDump verbose (astTypeField t verbose fuel) obj

def ptrDump (addr : UInt64) : Dump :=
  if addr = 0 then .fields "Null".toList []
  else
    let hex := Nat.toDigits 16 addr.toNat
    .text "Ptr".toList ("0x".toList ++ (List.replicate (16 - hex.length) '0' ++ hex))

def ObjValue.dump (verbose : Bool) (fuel : Nat) (addr : UInt64) : ObjValue ι → Option Dump
  | .node astType _ => do
    return objDump "ObjValue".toList "node" "NodeObjValue".toList
      [← astTypeField t verbose fuel astType, .node "ptr".toList (ptrDump addr)]
  | .list astType elems => do
    return objDump "ObjValue".toList "list" "ListObjValue".toList
      [← astTypeField t verbose fuel astType, .node "size".toList (.text "Size".toList (decimalText elems.length)),
        .node "ptr".toList (ptrDump (if elems.isEmpty then 0 else addr))]
  | .cptr str =>
    return objDump "ObjValue".toList "cptr" "CptrObjValue".toList
      [cptrTypeField verbose .charPtr, .text "ptr".toList str]

end Table

/-! The printed text is the line of the node. -/

section Lines
variable {verbose : Bool} {astText : ι → Option (List Char)} {astField : ι → Option DumpField}

/-- What is printed for a declaration is the value of the field. -/
def FieldText (astText : ι → Option (List Char)) (astField : ι → Option DumpField) : Prop :=
  ∀ i, (astField i).map DumpField.inline = (astText i).map (".ast_type = ".toList ++ ·)

theorem objDump_inline (name : CStr) (kind : String) (inner : CStr) (fields : List DumpField) :
    (objDump name kind inner fields).inline = name ++ ("(.type = '".toList ++ (kind.toList ++ ("' .".toList ++
      (kind.toList ++ (" = ".toList ++ (inner ++ ("(".toList ++ (inlineFields 0 fields ++ "))".toList)))))))) := by
  simp [objDump, Dump.inline, inlineFields, DumpField.inline, AstPrinter.repr]

theorem cptrTypeField_inline (c : CptrType) :
    (cptrTypeField verbose c).inline = ".cptr_type = ".toList ++ printCptrType verbose c := by
  cases verbose <;> cases c <;> decide

/-- A head up to the name of the inner node. -/
theorem objHeadPrint_eq {cName name inner : CStr} {kind : String} {isType : Bool} (named : typeNamePrint cName = name)
    (head : typeNamePrint kind.toList ++ (if isType then "ObjType".toList else "ObjValue".toList) = inner) :
    objHeadPrint cName kind isType = name ++ ("(.type = '".toList ++ (kind.toList ++ ("' .".toList ++ (kind.toList ++
      (" = ".toList ++ inner))))) := by
  subst named head
  simp only [objHeadPrint, printStr, List.append_assoc, List.cons_append, List.nil_append]
  rfl

theorem objHeadPrint_type {inner : CStr} {kind : String} (head : typeNamePrint kind.toList ++ "ObjType".toList = inner) :
    objHeadPrint "obj_type_t".toList kind true = "ObjType".toList ++ ("(.type = '".toList ++ (kind.toList ++
      ("' .".toList ++ (kind.toList ++ (" = ".toList ++ inner))))) :=
  objHeadPrint_eq (by decide) head

theorem objHeadPrint_value {inner : CStr} {kind : String} (head : typeNamePrint kind.toList ++ "ObjValue".toList = inner) :
    objHeadPrint "obj_value_t".toList kind false = "ObjValue".toList ++ ("(.type = '".toList ++ (kind.toList ++
      ("' .".toList ++ (kind.toList ++ (" = ".toList ++ inner))))) :=
  objHeadPrint_eq (by decide) head

/-- A line with the print of a declaration in it. -/
theorem line_of_field (same : FieldText astText astField) (i : ι) {line : List Char → List Char} {dump : DumpField → Dump}
    (lines : ∀ field ast, field.inline = ".ast_type = ".toList ++ ast → line ast = (dump field).inline) :
    (do return line (← astText i) : Option (List Char)) = (do return dump (← astField i) : Option Dump).map Dump.inline := by
  have printed := same i
  cases isField : astField i with
  | none =>
    rw [isField] at printed
    rw [Option.map_eq_none_iff.mp printed.symm]
    rfl
  | some field =>
    rw [isField] at printed
    obtain ⟨ast, found, printed⟩ := Option.map_eq_some_iff.mp printed.symm
    rw [found]
    exact congrArg some (lines field ast printed.symm)

theorem printObjType_eq (same : FieldText astText astField) (obj : ObjType ι) :
    printObjType verbose astText obj = (objTypeDump verbose astField obj).map Dump.inline := by
  cases obj with
  | node i =>
    apply line_of_field same
    intro field ast line
    rw [@objHeadPrint_type "NodeObjType".toList "node" (by decide), objDump_inline, inlineFields, inlineFields, line]
    simp
  | list i =>
    apply line_of_field same
    intro field ast line
    rw [@objHeadPrint_type "ListObjType".toList "list" (by decide), objDump_inline, inlineFields, inlineFields, line]
    simp
  | cptr c =>
    rw [printObjType, objTypeDump, @objHeadPrint_type "CptrObjType".toList "cptr" (by decide)]
    simp [objDump_inline, inlineFields, cptrTypeField_inline]

theorem printArgDef_eq (same : FieldText astText astField) (arg : ArgDef ι) :
    printArgDef verbose astText arg = (argDefDump verbose astField arg).map Dump.inline := by
  have head : typeNamePrint "arg_def_t".toList = "ArgDef".toList := by decide
  rw [printArgDef, argDefDump, printObjType_eq same, head]
  cases objTypeDump verbose astField arg.argType with
  | none => rfl
  | some type => simp [Dump.inline, inlineFields, DumpField.inline, printStr, AstPrinter.repr]

theorem printArgDefs_eq (same : FieldText astText astField) : ∀ (args : List (ArgDef ι)) (n : Nat),
    printArgDefs verbose astText args n = (argDefsDump verbose astField args).map (inlineElems n) := by
  intro args
  induction args with
  | nil => exact fun n => by rw [printArgDefs, argDefsDump, Option.map_some, inlineElems]
  | cons arg args ih =>
    intro n
    rw [printArgDefs, argDefsDump, printArgDef_eq same, ih]
    cases argDefDump verbose astField arg with
    | none => rfl
    | some first =>
      cases argDefsDump verbose astField args with
      | none => rfl
      | some rest => simp [inlineElems]

end Lines

section Table
variable (t : TypeTable ι) {verbose : Bool} {fuel : Nat}

theorem printVerbose_eq (i : ι) : printVerbose t fuel i = (verboseDump t fuel i).map Dump.inline := by
  induction fuel generalizing i with
  | zero => rfl
  | succ fuel ih =>
    have head : typeNamePrint "ast_type_t".toList = "AstType".toList := by decide
    have args_head : typeNamePrint "arg_def_t".toList = "ArgDef".toList := by decide
    have same : FieldText (printVerbose t fuel) fun j => (verboseDump t fuel j).map (.node "ast_type".toList) := by
      intro j
      rw [ih, Option.map_map, Option.map_map]
      rfl
    have base : printBase (printVerbose t fuel) (t.astType i).base =
        (baseDump (verboseDump t fuel) (t.astType i).base).map Dump.inline := by
      cases (t.astType i).base with
      | none => rfl
      | some j => exact ih j
    rw [printVerbose, verboseDump, printArgDefs_eq same, base, head, args_head]
    cases baseDump (verboseDump t fuel) (t.astType i).base with
    | none => rfl
    | some base =>
      cases argDefsDump true (fun j => (verboseDump t fuel j).map (.node "ast_type".toList)) (t.astType i).args with
      | none => rfl
      | some args => simp [Dump.inline, inlineFields, DumpField.inline, printStr, AstPrinter.repr]

theorem fieldText : FieldText (printAstType t verbose fuel) (astTypeField t verbose fuel) := by
  intro i
  cases verbose with
  | false => simp [printAstType, astTypeField, DumpField.inline, printStr, AstPrinter.repr]
  | true =>
    change ((verboseDump t fuel i).map (.node "ast_type".toList)).map DumpField.inline = _
    rw [printAstType, if_pos rfl, printVerbose_eq, Option.map_map, Option.map_map]
    rfl

theorem ObjType.print_eq (obj : ObjType ι) : obj.print t verbose fuel = (obj.dump t verbose fuel).map Dump.inline :=
  printObjType_eq (fieldText t) obj

theorem ptrDump_inline (addr : UInt64) : (ptrDump addr).inline = printPtr addr := by
  unfold ptrDump printPtr
  split
  · decide
  · simp [Dump.inline, AstPrinter.textNode, AstPrinter.repr]

theorem ObjValue.print_eq (addr : UInt64) (value : ObjValue ι) :
    value.print t verbose fuel addr = (value.dump t verbose fuel addr).map Dump.inline := by
  cases value with
  | node i ptr =>
    apply line_of_field (fieldText t)
    intro field ast line
    rw [@objHeadPrint_value "NodeObjValue".toList "node" (by decide), objDump_inline]
    simp [inlineFields, line, DumpField.inline, ptrDump_inline]
  | list i elems =>
    apply line_of_field (fieldText t)
    intro field ast line
    rw [@objHeadPrint_value "ListObjValue".toList "list" (by decide), objDump_inline]
    simp [inlineFields, line, DumpField.inline, ptrDump_inline, Dump.inline, AstPrinter.textNode, AstPrinter.repr, printSize]
  | cptr str =>
    rw [ObjValue.print, ObjValue.dump, @objHeadPrint_value "CptrObjValue".toList "cptr" (by decide)]
    simp [objDump_inline, inlineFields, cptrTypeField_inline, DumpField.inline, AstPrinter.repr, printStr]

end Table

/-! Those nodes can be read back. -/

/-- What the parser needs to read the line of a node. -/
structure Readable (node : Dump) : Prop where
  printable : Printable (node.leaves printedIndex)
  counted : node.Counted

structure ReadableField (field : DumpField) : Prop where
  printable : Printable (field.leaves printedIndex)
  counted : field.Counted

theorem Readable.text {type str : CStr} (isType : (Leaf.lexeme .ident type).Printable) (quotable : Quotable str) :
    Readable (.text type str) :=
  ⟨Dump.printable_text isType quotable, trivial⟩

theorem Readable.fields {type : CStr} {fields : List DumpField} (isType : (Leaf.lexeme .ident type).Printable)
    (readable : ∀ field ∈ fields, ReadableField field) : Readable (.fields type fields) := by
  have both : Printable (dumpFieldsLeaves printedIndex fields) ∧ DumpFieldsCounted fields := by
    induction fields with
    | nil => exact ⟨printable_nil, trivial⟩
    | cons field fields ih =>
      obtain ⟨first, later⟩ := List.forall_mem_cons.mp readable
      obtain ⟨printable, counted⟩ := ih later
      exact ⟨printable_append.mpr ⟨first.printable, printable⟩, first.counted, counted⟩
  exact ⟨Dump.printable_fields isType both.1, both.2⟩

theorem ReadableField.text {name str : CStr} (isName : (Leaf.lexeme .name name).Printable) (quotable : Quotable str) :
    ReadableField (.text name str) :=
  ⟨DumpField.printable_text isName quotable, trivial⟩

theorem ReadableField.node {name : CStr} {node : Dump} (isName : (Leaf.lexeme .name name).Printable)
    (readable : Readable node) : ReadableField (.node name node) :=
  ⟨DumpField.printable_node isName readable.printable, readable.counted⟩

theorem ReadableField.list {name base : CStr} {elems : List Dump} (isName : (Leaf.lexeme .name name).Printable)
    (isBase : (Leaf.lexeme .ident base).Printable) (few : elems.length ≤ 256) (readable : ∀ elem ∈ elems, Readable elem) :
    ReadableField (.list name base elems) := by
  have both : ∀ k, Printable (dumpElemsLeaves printedIndex k elems) ∧ DumpElemsCounted elems := by
    clear few
    induction elems with
    | nil => exact fun k => ⟨printable_nil, trivial⟩
    | cons elem elems ih =>
      obtain ⟨first, later⟩ := List.forall_mem_cons.mp readable
      intro k
      obtain ⟨printable, counted⟩ := ih later (k + 1)
      refine ⟨?_, first.counted, counted⟩
      simp only [dumpElemsLeaves, printable_cons, printable_append]
      exact ⟨trivial, trivial, trivial, trivial, first.printable, printable⟩
  exact ⟨DumpField.printable_list isName isBase (both 0).1, few, (both 0).2⟩

/-- The names of a table can stand between apostrophes, no two types have one name, and an index counts
the arguments of a type. -/
structure TypeTable.Plain (t : TypeTable ι) : Prop where
  name : ∀ i, Quotable (t.astType i).name
  argName : ∀ i, ∀ arg ∈ (t.astType i).args, Quotable arg.argName
  few : ∀ i, (t.astType i).args.length ≤ 256
  distinct : ∀ i j, (t.astType i).name = (t.astType j).name → i = j

theorem TypeTable.distinct_of_nodup {t : TypeTable ι} (nodup : (t.types.map fun i => (t.astType i).name).Nodup) :
    ∀ i j, (t.astType i).name = (t.astType j).name → i = j :=
  fun i j same => List.inj_on_of_nodup_map nodup (t.complete i) (t.complete j) same

theorem Abc.plain : Abc.table.Plain where
  name i := by cases i <;> decide
  argName i := by cases i <;> decide
  few i := by cases i <;> decide
  distinct := TypeTable.distinct_of_nodup (by decide +kernel)

theorem Cxxpy.plain : Cxxpy.table.Plain where
  name i := by cases i <;> decide
  argName i := by cases i <;> decide
  few i := by cases i <;> decide
  distinct := TypeTable.distinct_of_nodup (by decide +kernel)

theorem quotable_cptrName (c : CptrType) : Quotable c.name := by
  cases c <;> decide

theorem cptrTypeField_readable (verbose : Bool) (c : CptrType) : ReadableField (cptrTypeField verbose c) := by
  cases verbose with
  | false => exact .text (printable_name rfl) (quotable_cptrName c)
  | true => exact .node (printable_name rfl) (.text (printable_ident rfl) (quotable_cptrName c))

theorem quotable_decimal (n : Nat) : Quotable (decimalText n) := printable_decimal n

section Reading
variable {t : TypeTable ι} {verbose : Bool} {fuel : Nat} {astField : ι → Option DumpField}

theorem objDump_readable {name inner : CStr} {kind : String} {fields : List DumpField}
    (isName : (Leaf.lexeme .ident name).Printable) (isKind : (Leaf.lexeme .name kind.toList).Printable)
    (quotable : Quotable kind.toList) (isInner : (Leaf.lexeme .ident inner).Printable)
    (readable : ∀ field ∈ fields, ReadableField field) : Readable (objDump name kind inner fields) := by
  refine .fields isName (List.forall_mem_cons.mpr ⟨.text (printable_name rfl) quotable, ?_⟩)
  exact List.forall_mem_singleton.mpr (.node isKind (.fields isInner readable))

theorem objTypeDump_readable (readable : ∀ i field, astField i = some field → ReadableField field) {obj : ObjType ι}
    {node : Dump} (dumped : objTypeDump verbose astField obj = some node) : Readable node := by
  cases obj with
  | node i =>
    obtain ⟨field, found, dumped⟩ := Option.bind_eq_some_iff.mp dumped
    cases dumped
    exact objDump_readable (printable_ident rfl) (printable_name rfl) (by decide) (printable_ident rfl)
      (List.forall_mem_singleton.mpr (readable i field found))
  | list i =>
    obtain ⟨field, found, dumped⟩ := Option.bind_eq_some_iff.mp dumped
    cases dumped
    exact objDump_readable (printable_ident rfl) (printable_name rfl) (by decide) (printable_ident rfl)
      (List.forall_mem_singleton.mpr (readable i field found))
  | cptr c =>
    cases dumped
    exact objDump_readable (printable_ident rfl) (printable_name rfl) (by decide) (printable_ident rfl)
      (List.forall_mem_singleton.mpr (cptrTypeField_readable verbose c))

theorem argDefsDump_readable (readable : ∀ i field, astField i = some field → ReadableField field) :
    ∀ {args : List (ArgDef ι)} {nodes : List Dump}, (∀ arg ∈ args, Quotable arg.argName) →
    argDefsDump verbose astField args = some nodes → nodes.length = args.length ∧ ∀ node ∈ nodes, Readable node := by
  intro args
  induction args with
  | nil =>
    intro nodes _ dumped
    cases dumped
    exact ⟨rfl, by simp⟩
  | cons arg args ih =>
    intro nodes quotable dumped
    obtain ⟨firstName, later⟩ := List.forall_mem_cons.mp quotable
    obtain ⟨first, one, dumped⟩ := Option.bind_eq_some_iff.mp dumped
    obtain ⟨rest, more, dumped⟩ := Option.bind_eq_some_iff.mp dumped
    cases dumped
    obtain ⟨type, typed, one⟩ := Option.bind_eq_some_iff.mp one
    cases one
    obtain ⟨length, readable'⟩ := ih later more
    refine ⟨by simp [length], List.forall_mem_cons.mpr ⟨?_, readable'⟩⟩
    have isType := objTypeDump_readable readable typed
    refine .fields (printable_ident rfl) (List.forall_mem_cons.mpr ⟨.text (printable_name rfl) firstName, ?_⟩)
    exact List.forall_mem_singleton.mpr (.node (printable_name rfl) isType)

theorem verboseDump_readable (plain : t.Plain) {i : ι} {node : Dump} (dumped : verboseDump t fuel i = some node) :
    Readable node := by
  induction fuel generalizing i node with
  | zero => cases dumped
  | succ fuel ih =>
    obtain ⟨base, isBase, dumped⟩ := Option.bind_eq_some_iff.mp dumped
    obtain ⟨args, areArgs, dumped⟩ := Option.bind_eq_some_iff.mp dumped
    cases dumped
    have below : ∀ j field, (verboseDump t fuel j).map (.node "ast_type".toList) = some field → ReadableField field := by
      intro j field found
      obtain ⟨node, dumped, rfl⟩ := Option.map_eq_some_iff.mp found
      exact .node (printable_name rfl) (ih dumped)
    obtain ⟨length, readable⟩ := argDefsDump_readable below (plain.argName i) areArgs
    have base_readable : Readable base := by
      cases link : (t.astType i).base with
      | none =>
        rw [link] at isBase
        cases isBase
        exact .fields (printable_ident rfl) (by simp)
      | some j =>
        rw [link] at isBase
        exact ih isBase
    refine .fields (printable_ident rfl) (List.forall_mem_cons.mpr ⟨.text (printable_name rfl) (plain.name i), ?_⟩)
    refine List.forall_mem_cons.mpr ⟨.node (printable_name rfl) base_readable, List.forall_mem_singleton.mpr ?_⟩
    exact .list (printable_name rfl) (printable_ident rfl) (by rw [length]; exact plain.few i) readable

theorem astTypeField_readable (plain : t.Plain) (i : ι) (field : DumpField)
    (found : astTypeField t verbose fuel i = some field) : ReadableField field := by
  cases verbose with
  | false =>
    cases found
    exact .text (printable_name rfl) (plain.name i)
  | true =>
    obtain ⟨node, dumped, rfl⟩ := Option.map_eq_some_iff.mp found
    exact .node (printable_name rfl) (verboseDump_readable plain dumped)

theorem hex_ident (n : Nat) : ∀ c ∈ Nat.toDigits 16 n, isident c = true := by
  have digit : ∀ d < 16, isident d.digitChar = true := by decide
  induction n using Nat.strong_induction_on with
  | _ n ih =>
    rw [Nat.toDigits_eq_if (by decide)]
    split
    · exact List.forall_mem_singleton.mpr (digit n (by assumption))
    · have last := digit (n % 16) (Nat.mod_lt n (by decide))
      exact List.forall_mem_append.mpr ⟨ih (n / 16) (by omega), List.forall_mem_singleton.mpr last⟩

theorem ptrDump_readable (addr : UInt64) : Readable (ptrDump addr) := by
  unfold ptrDump
  split
  · exact .fields (printable_ident rfl) (by simp)
  · apply Readable.text (printable_ident rfl)
    have letters : ∀ c ∈ "0x".toList ++ (List.replicate (16 - (Nat.toDigits 16 addr.toNat).length) '0' ++
        Nat.toDigits 16 addr.toNat), isident c = true := by
      refine List.forall_mem_append.mpr ⟨List.all_eq_true.mp (by decide), List.forall_mem_append.mpr ⟨?_, hex_ident _⟩⟩
      intro c member
      rw [List.eq_of_mem_replicate member]
      decide
    exact ⟨literalBody_of_ident letters, fun member => absurd (letters nul member) (by decide)⟩

theorem ObjValue.dump_readable (plain : t.Plain) {addr : UInt64} {value : ObjValue ι} {node : Dump}
    (quotable : ∀ str, value = .cptr str → Quotable str) (dumped : value.dump t verbose fuel addr = some node) :
    Readable node := by
  cases value with
  | node i ptr =>
    obtain ⟨field, found, dumped⟩ := Option.bind_eq_some_iff.mp dumped
    cases dumped
    have isPtr : ReadableField (.node "ptr".toList (ptrDump addr)) := .node (printable_name rfl) (ptrDump_readable addr)
    refine objDump_readable (printable_ident rfl) (printable_name rfl) (by decide) (printable_ident rfl) ?_
    exact List.forall_mem_cons.mpr ⟨astTypeField_readable plain i field found, List.forall_mem_singleton.mpr isPtr⟩
  | list i elems =>
    obtain ⟨field, found, dumped⟩ := Option.bind_eq_some_iff.mp dumped
    cases dumped
    have isSize : ReadableField (.node "size".toList (.text "Size".toList (decimalText elems.length))) :=
      .node (printable_name rfl) (.text (printable_ident rfl) (quotable_decimal _))
    have isPtr : ReadableField (.node "ptr".toList (ptrDump (if elems.isEmpty then 0 else addr))) :=
      .node (printable_name rfl) (ptrDump_readable _)
    refine objDump_readable (printable_ident rfl) (printable_name rfl) (by decide) (printable_ident rfl) ?_
    exact List.forall_mem_cons.mpr ⟨astTypeField_readable plain i field found,
      List.forall_mem_cons.mpr ⟨isSize, List.forall_mem_singleton.mpr isPtr⟩⟩
  | cptr str =>
    cases dumped
    refine objDump_readable (printable_ident rfl) (printable_name rfl) (by decide) (printable_ident rfl) ?_
    exact List.forall_mem_cons.mpr ⟨cptrTypeField_readable verbose .charPtr,
      List.forall_mem_singleton.mpr (.text (printable_name rfl) (quotable str rfl))⟩

end Reading

/-! A reader of the trees that encode them. -/

/-- The name in `'name'`, `CptrType('name')` or `NodeAstType(.name = 'name' ..)`. -/
def readTypeName : ArgValue → Option CStr
  | .literalValue literal => some literal.str
  | .nodeValue (.mk _ (.literalArgs literal)) => some literal.str
  | .nodeValue (.mk _ (.listArgs (.mk _ (.literalValue literal) :: _))) => some literal.str
  | _ => none

def TypeTable.named? (t : TypeTable ι) (name : CStr) : Option ι := t.types.find? fun i => (t.astType i).name = name

def CptrType.named? (name : CStr) : Option CptrType := [CptrType.charPtr, .bool, .compOp].find? fun c => c.name = name

/-- The type of the object that a tree tells of. -/
def readObjType (t : TypeTable ι) : TreeNode → Option (ObjType ι)
  | .mk _ (.listArgs [_, .mk kind (.nodeValue (.mk _ (.listArgs (.mk _ type :: _))))]) =>
    (readTypeName type).bind fun name =>
      if kind.str = "node".toList then (t.named? name).map .node
      else if kind.str = "list".toList then (t.named? name).map .list
      else (CptrType.named? name).map .cptr
  | _ => none

section RoundTrip
variable {t : TypeTable ι} {verbose : Bool} {fuel : Nat}

theorem named?_name (plain : t.Plain) (i : ι) : t.named? (t.astType i).name = some i := by
  unfold TypeTable.named?
  cases found : t.types.find? fun j => (t.astType j).name = (t.astType i).name with
  | none => exact absurd (List.find?_eq_none.mp found i (t.complete i)) (by simp)
  | some j => rw [plain.distinct j i (by simpa using List.find?_some found)]

theorem cptr_named?_name (c : CptrType) : CptrType.named? c.name = some c := by
  cases c <;> decide

/-- The argument that encodes a field. -/
theorem readTypeName_ast {i : ι} {field : DumpField} (found : astTypeField t verbose fuel i = some field) :
    ∃ name value, field.toTree = .mk name value ∧ readTypeName value = some (t.astType i).name := by
  cases verbose with
  | false =>
    cases found
    exact ⟨_, _, by rw [DumpField.toTree], rfl⟩
  | true =>
    obtain ⟨node, dumped, rfl⟩ := Option.map_eq_some_iff.mp found
    cases fuel with
    | zero => cases dumped
    | succ fuel =>
      obtain ⟨base, _, dumped⟩ := Option.bind_eq_some_iff.mp dumped
      obtain ⟨args, _, dumped⟩ := Option.bind_eq_some_iff.mp dumped
      cases dumped
      exact ⟨_, _, by rw [DumpField.toTree], by simp [Dump.toTree, dumpFieldsToTree, DumpField.toTree, readTypeName]⟩

theorem readTypeName_cptr (c : CptrType) : ∃ name value, (cptrTypeField verbose c).toTree = .mk name value ∧
    readTypeName value = some c.name := by
  cases verbose with
  | false => exact ⟨⟨"cptr_type".toList⟩, .literalValue ⟨c.name⟩, by simp [cptrTypeField, DumpField.toTree], rfl⟩
  | true =>
    exact ⟨⟨"cptr_type".toList⟩, .nodeValue (.mk ⟨"CptrType".toList⟩ (.literalArgs ⟨c.name⟩)),
      by simp [cptrTypeField, DumpField.toTree, Dump.toTree], rfl⟩

theorem readObjType_dump {name inner : CStr} {kind : String} {field : DumpField} {fields : List DumpField}
    {argName : ArgName} {value : ArgValue} {typeName : CStr} (shape : field.toTree = .mk argName value)
    (read : readTypeName value = some typeName) :
    readObjType t (objDump name kind inner (field :: fields)).toTree =
      if kind.toList = "node".toList then (t.named? typeName).map .node
      else if kind.toList = "list".toList then (t.named? typeName).map .list
      else (CptrType.named? typeName).map .cptr := by
  simp only [objDump, Dump.toTree, dumpFieldsToTree, DumpField.toTree, shape, readObjType, read]
  rfl

/-- The line of an object whose type can be read from its node. -/
theorem parse_line {obj : ObjType ι} {text : List Char} {dump : Option Dump} (readable : ∀ node, dump = some node → Readable node)
    (read : ∀ node, dump = some node → readObjType t node.toTree = some obj) (printed : dump.map Dump.inline = some text)
    (type : InputType) : ∃ tree, parseText type (text ++ [newline]) = .ok tree ∧ readObjType t tree.root = some obj := by
  obtain ⟨node, dumped, rfl⟩ := Option.map_eq_some_iff.mp printed
  have fine := readable node dumped
  exact ⟨⟨node.toTree⟩, parseText_inline fine.printable fine.counted type, read node dumped⟩

/-- The line that `print` writes for a type is read by the parser, as a tree that tells of this type. -/
theorem objType_print_round_trip (plain : t.Plain) {obj : ObjType ι} {text : List Char}
    (printed : obj.print t verbose fuel = some text) (type : InputType) :
    ∃ tree, parseText type (text ++ [newline]) = .ok tree ∧ readObjType t tree.root = some obj := by
  rw [ObjType.print_eq] at printed
  refine parse_line (fun node dumped => objTypeDump_readable (astTypeField_readable plain) dumped) ?_ printed type
  intro node dumped
  cases obj with
  | node i =>
    obtain ⟨field, found, dumped⟩ := Option.bind_eq_some_iff.mp dumped
    cases dumped
    obtain ⟨_, _, shape, read⟩ := readTypeName_ast found
    rw [readObjType_dump shape read, named?_name plain]
    rfl
  | list i =>
    obtain ⟨field, found, dumped⟩ := Option.bind_eq_some_iff.mp dumped
    cases dumped
    obtain ⟨_, _, shape, read⟩ := readTypeName_ast found
    rw [readObjType_dump shape read, named?_name plain]
    rfl
  | cptr c =>
    cases dumped
    obtain ⟨_, _, shape, read⟩ := @readTypeName_cptr verbose c
    rw [readObjType_dump shape read, cptr_named?_name]
    rfl

/-- The verbose print of a type of a library, which goes into its base and its argument. -/
theorem objType_print_round_trip_b :
    ∃ text, ObjType.print Abc.table true 12 (.node .b) = some text ∧ ∃ tree, parseText .text (text ++ [newline]) = .ok tree ∧
      readObjType Abc.table tree.root = some (.node .b) := by
  have ends : (ObjType.print Abc.table true 12 (.node .b)).isSome := by decide
  obtain ⟨text, printed⟩ := Option.isSome_iff_exists.mp ends
  exact ⟨text, printed, objType_print_round_trip Abc.plain printed .text⟩

theorem parse_valueLine (plain : t.Plain) {addr : UInt64} {value : ObjValue ι} {text : List Char}
    (quotable : ∀ str, value = .cptr str → Quotable str) (printed : value.print t verbose fuel addr = some text)
    (type : InputType) :
    ∃ tree, parseText type (text ++ [newline]) = .ok tree ∧ readObjType t tree.root = some value.type := by
  rw [ObjValue.print_eq] at printed
  refine parse_line (fun node dumped => ObjValue.dump_readable plain quotable dumped) ?_ printed type
  intro node dumped
  cases value with
  | node i ptr =>
    obtain ⟨field, found, dumped⟩ := Option.bind_eq_some_iff.mp dumped
    cases dumped
    obtain ⟨_, _, shape, read⟩ := readTypeName_ast found
    rw [readObjType_dump shape read, named?_name plain]
    rfl
  | list i elems =>
    obtain ⟨field, found, dumped⟩ := Option.bind_eq_some_iff.mp dumped
    cases dumped
    obtain ⟨_, _, shape, read⟩ := readTypeName_ast found
    rw [readObjType_dump shape read, named?_name plain]
    rfl
  | cptr str =>
    cases dumped
    obtain ⟨_, _, shape, read⟩ := @readTypeName_cptr verbose .charPtr
    rw [readObjType_dump shape read, cptr_named?_name]
    rfl

/-- The line that `print` writes for a value is that of a tree that tells of its type, where a text in it must be the
body of a literal: the parser builds that tree if its pools have room for the line, and ends with `bad_alloc` if not. -/
theorem objValue_print_round_trip (plain : t.Plain) {addr : UInt64} {value : ObjValue ι} {text : List Char}
    (quotable : ∀ str, value = .cptr str → Quotable str) (printed : value.print t verbose fuel addr = some text)
    {layout : Store.Layout} {nodeHeap rawHeap : Heap} {ast : Store.AST} (made : Store.new nodeHeap rawHeap = some ast)
    (type : InputType) :
    ∃ tree, readObjType t tree.root = some value.type ∧
      (ast.pools.Fit layout (parseNodes type (text ++ [newline])) →
        ∃ ast', Stored.parseText layout type (text ++ [newline]) ast = .ok ast' ∧ Stored.Shows ast' tree) ∧
      (¬ ast.pools.Fit layout (parseNodes type (text ++ [newline])) →
        ∃ what, Stored.parseText layout type (text ++ [newline]) ast = .error (.store (.alloc (.badAlloc what)))) := by
  obtain ⟨tree, parsed, tells⟩ := parse_valueLine plain quotable printed type
  exact ⟨tree, tells, fun room => storedText_shows made room parsed, storedText_short made⟩

/-- A node at an address, and a text with an apostrophe behind a backslash. -/
theorem objValue_print_round_trip_node :
    let layout : Store.Layout := ⟨fun _ => 24, fun _ => ⟨3⟩⟩
    let nodeLine :=
      "ObjValue(.type = 'node' .node = NodeObjValue(.ast_type = 'B' .ptr = Ptr('0x0000000000001000')))".toList
    let textLine := "ObjValue(.type = 'cptr' .cptr = CptrObjValue(.cptr_type = 'char*' .ptr = 'it\\'s'))".toList
    (∃ ast' tree, Stored.parseText layout .text (nodeLine ++ [newline]) storeAt = .ok ast' ∧ Stored.Shows ast' tree ∧
      readObjType Abc.table tree.root = some (.node .b)) ∧
    ∃ ast' tree, Stored.parseText layout .text (textLine ++ [newline]) storeAt = .ok ast' ∧ Stored.Shows ast' tree ∧
      readObjType Abc.table tree.root = some (.cptr .charPtr) := by
  intro layout nodeLine textLine
  constructor
  · have room : storeAt.pools.Fit layout (parseNodes .text (nodeLine ++ [newline])) := by
      unfold Pools.Fit
      decide +kernel
    have printed : ObjValue.print Abc.table false 0 4096 (.node .b (.mk .b [.node (.mk .a [])])) = some nodeLine := by decide
    have quotable : ∀ str, (.node .b (.mk .b [.node (.mk .a [])]) : ObjValue Abc.NodeType) = .cptr str → Quotable str :=
      fun _ same => by cases same
    obtain ⟨tree, tells, parses, -⟩ :=
      @objValue_print_round_trip _ Abc.table false 0 Abc.plain _ _ _ quotable printed layout _ _ _ storeAt_new .text
    obtain ⟨ast', parsed, shows_⟩ := parses room
    exact ⟨ast', tree, parsed, shows_, tells⟩
  · have room : storeAt.pools.Fit layout (parseNodes .text (textLine ++ [newline])) := by
      unfold Pools.Fit
      decide +kernel
    have printed : ObjValue.print Abc.table false 0 4096 (.cptr "it\\'s".toList) = some textLine := by decide
    have quotable : ∀ str, (.cptr "it\\'s".toList : ObjValue Abc.NodeType) = .cptr str → Quotable str := by
      rintro _ ⟨⟩
      decide
    obtain ⟨tree, tells, parses, -⟩ :=
      @objValue_print_round_trip _ Abc.table false 0 Abc.plain _ _ _ quotable printed layout _ _ _ storeAt_new .text
    obtain ⟨ast', parsed, shows_⟩ := parses room
    exact ⟨ast', tree, parsed, shows_, tells⟩

end RoundTrip

end Obj

end CxxpyTree
