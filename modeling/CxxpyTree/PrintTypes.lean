import CxxpyTree.ObjPrintRoundTrip
import CxxpyTree.Lib.TextReader

/-! `ast_type_t::print_types` of tree/eval.cpp: the listing of the types of an extension library, and that a reader
of it knows what the library declares. -/

namespace CxxpyTree.Obj

section Printing
variable {ι : Type} (t : TypeTable ι)

/-- The branches on the type of an argument. -/
def printArgType : ObjType ι → List Char
  | .node astType => '<' :: ((t.astType astType).name ++ ">*".toList)
  | .list astType => "list<".toList ++ ((t.astType astType).name ++ ['>'])
  | .cptr cptrType => '<' :: (cptrType.name ++ ['>'])

/-- The loop over the arguments of a type. -/
def printTypeArgs : (first : Bool) → List (ArgDef ι) → List Char
  | _, [] => []
  | first, arg :: args =>
    (if first then [] else ", ".toList) ++ printArgType t arg.argType ++ " [".toList ++ arg.argName ++ [']'] ++
      printTypeArgs false args

/-- One turn of the loop: the arguments of a type without a base are not listed. -/
def printType (type : AstType ι) : List Char :=
  '<' :: (type.name ++ ['>'] ++ (match type.base with
    | some base => " : ".toList ++ (t.astType base).name ++ (if 0 < type.args.length then " @ ".toList else []) ++
        printTypeArgs t true type.args
    | none => []) ++ [';', newline])

/-- `ast_type_t::print_types`. -/
def printTypes : List Char := t.types.flatMap fun i => printType t (t.astType i)

end Printing

inductive ArgKind where
  | node
  | list
  | cptr
  deriving DecidableEq

/-- What a line says about an argument. -/
structure ArgLine where
  kind : ArgKind
  type : CStr
  name : CStr
  deriving DecidableEq

/-- What a line says about a type. -/
structure TypeLine where
  name : CStr
  base : Option (CStr × List ArgLine)
  deriving DecidableEq

section Lines
variable {ι : Type} (t : TypeTable ι)

def ArgDef.line (arg : ArgDef ι) : ArgLine :=
  match arg.argType with
  | .node astType => ⟨.node, (t.astType astType).name, arg.argName⟩
  | .list astType => ⟨.list, (t.astType astType).name, arg.argName⟩
  | .cptr cptrType => ⟨.cptr, cptrType.name, arg.argName⟩

def AstType.line (type : AstType ι) : TypeLine where
  name := type.name
  base := type.base.map fun base => ((t.astType base).name, type.args.map (ArgDef.line t))

/-- The declarations that the listing shows. -/
def TypeTable.lines : List TypeLine := t.types.map fun i => (t.astType i).line t

/-- The names are made of characters of identifiers, as the names of types and members of C++ are. -/
structure TypeTable.WellNamed : Prop where
  name : ∀ i, (t.astType i).name.all isident = true
  argName : ∀ i, ∀ arg ∈ (t.astType i).args, arg.argName.all isident = true

end Lines

theorem Abc.wellNamed : Abc.table.WellNamed where
  name i := by cases i <;> decide
  argName i := by cases i <;> decide

theorem Cxxpy.wellNamed : Cxxpy.table.WellNamed where
  name i := by cases i <;> decide
  argName i := by cases i <;> decide

section Reading
open TextReader

def readArgType : TextReader (ArgKind × CStr) :=
  orElse
    (do
      expect "list<".toList
      let type ← upTo (· == '>')
      expect ['>']
      return (.list, type))
    (do
      expect ['<']
      let type ← upTo (· == '>')
      let kind ← orElse (do expect ">*".toList; return .node) (do expect ['>']; return .cptr)
      return (kind, type))

def readArgLine : TextReader ArgLine := do
  let (kind, type) ← readArgType
  expect " [".toList
  let name ← upTo (· == ']')
  expect [']']
  return ⟨kind, type, name⟩

def readArgLines (fuel : Nat) : TextReader (List ArgLine) :=
  orElse (do expect " @ ".toList; sepBy ", ".toList readArgLine fuel) (pure [])

def readBase (fuel : Nat) : TextReader (Option (CStr × List ArgLine)) :=
  orElse
    (do
      expect " : ".toList
      let base ← upTo fun c => c == ' ' || c == ';'
      let args ← readArgLines fuel
      return some (base, args))
    (pure none)

def readTypeLine (fuel : Nat) : TextReader TypeLine := do
  expect ['<']
  let name ← upTo (· == '>')
  expect ['>']
  let base ← readBase fuel
  expect [';', newline]
  return ⟨name, base⟩

/-- A reader of the listing. -/
def readTypes (text : List Char) : Option (List TypeLine) := all (readTypeLine text.length) text.length text

end Reading

section Text

/-- The text of a line's argument up to its name. -/
def ArgLine.typeText (line : ArgLine) : List Char :=
  match line.kind with
  | .node => '<' :: (line.type ++ ">*".toList)
  | .list => "list<".toList ++ (line.type ++ ['>'])
  | .cptr => '<' :: (line.type ++ ['>'])

def ArgLine.text (line : ArgLine) : List Char := line.typeText ++ (" [".toList ++ (line.name ++ [']']))

def argLinesText (args : List ArgLine) : List Char :=
  if args = [] then [] else " @ ".toList ++ TextReader.sepText ", ".toList ArgLine.text args

def TypeLine.baseText (line : TypeLine) : List Char :=
  match line.base with
  | some (base, args) => " : ".toList ++ (base ++ argLinesText args)
  | none => []

def TypeLine.text (line : TypeLine) : List Char :=
  ['<'] ++ (line.name ++ (['>'] ++ (line.baseText ++ [';', newline])))

variable {ι : Type} {t : TypeTable ι}

theorem printArgType_eq (arg : ArgDef ι) : printArgType t arg.argType = (arg.line t).typeText := by
  cases kind : arg.argType <;> simp only [printArgType, ArgLine.typeText, ArgDef.line, kind]

theorem printTypeArgs_eq (args : List (ArgDef ι)) : ∀ first, printTypeArgs t first args =
    if args = [] then [] else
      (if first then [] else ", ".toList) ++ TextReader.sepText ", ".toList ArgLine.text (args.map (ArgDef.line t)) := by
  induction args with
  | nil => intro first; rfl
  | cons arg args ih =>
    intro first
    have named : (arg.line t).name = arg.argName := by cases kind : arg.argType <;> simp only [ArgDef.line, kind]
    rw [printTypeArgs, ih, printArgType_eq, if_neg (List.cons_ne_nil arg args)]
    cases args with
    | nil => simp only [if_true, List.map, TextReader.sepText, ArgLine.text, named, List.append_assoc, List.append_nil]
    | cons b args =>
      simp only [reduceCtorEq, Bool.false_eq_true, if_false, List.map, TextReader.sepText, ArgLine.text, named,
        List.append_assoc]

theorem printType_eq (type : AstType ι) : printType t type = (type.line t).text := by
  cases link : type.base with
  | none => simp only [printType, TypeLine.text, TypeLine.baseText, AstType.line, link, Option.map, List.append_assoc,
      List.cons_append, List.nil_append]
  | some base =>
    have args : (if 0 < type.args.length then " @ ".toList else []) ++ printTypeArgs t true type.args =
        argLinesText (type.args.map (ArgDef.line t)) := by
      rw [printTypeArgs_eq, argLinesText]
      cases type.args <;> rfl
    simp only [printType, TypeLine.text, TypeLine.baseText, AstType.line, link, Option.map, List.append_assoc,
      List.cons_append, List.nil_append, ← args]

/-- The listing is a text of what it shows. -/
theorem printTypes_eq : printTypes t = t.lines.flatMap TypeLine.text := by
  rw [printTypes, TypeTable.lines, List.flatMap_map]
  exact congrArg (List.flatMap · t.types) (funext fun i => printType_eq _)

end Text

section RoundTrip
open TextReader

/-- The names of the line end where the marks of the listing begin. -/
structure ArgLine.Plain (line : ArgLine) : Prop where
  type : ∀ c ∈ line.type, (c == '>') = false
  name : ∀ c ∈ line.name, (c == ']') = false

structure TypeLine.Plain (line : TypeLine) : Prop where
  name : ∀ c ∈ line.name, (c == '>') = false
  base : ∀ base ∈ line.base, ∀ c ∈ base.1, (c == ' ' || c == ';') = false
  args : ∀ base ∈ line.base, ∀ arg ∈ base.2, arg.Plain

theorem startsWith_cons {stop : Char → Bool} {c : Char} {text : List Char} (stops : stop c = true) :
    startsWith stop (c :: text) := by
  rintro d ⟨⟩
  exact stops

theorem head_of_startsWith {text : List Char} {c d : Char} (starts : startsWith (· == d) text) (other : c ≠ d) :
    text.head? ≠ some c := by
  intro same
  exact other (beq_iff_eq.mp (starts c same))

theorem readArgType_reads {line : ArgLine} (plain : line.Plain) :
    TextReader.Reads (startsWith (· == ' ')) readArgType line.typeText (line.kind, line.type) := by
  obtain ⟨kind, type, name⟩ := line
  have name_reads := upTo_reads plain.type
  have refuses {w : List Char} {β : Type} {f : Unit → TextReader β} :
      Refuses (startsWith (· == ' ')) (expect "list<".toList >>= f) ('<' :: w) :=
    Refuses.bind (expect_refuses (u := []) (c := 'l') (v := "ist<".toList) fun _ _ => by simp)
  have marked : ∀ {w rest : List Char}, startsWith (· == ' ') rest → startsWith (· == '>') ('>' :: w ++ rest) :=
    fun _ => startsWith_cons rfl
  cases kind with
  | node =>
    exact .orElse_right refuses
      (Reads.behind (name_reads.bind (Reads.map (Reads.orElse_left expect_reads.map)) fun _ => marked))
  | list => exact .orElse_left (Reads.behind (name_reads.bind expect_reads.map fun _ => marked))
  | cptr =>
    have other : Refuses (startsWith (· == ' ')) (expect ">*".toList) ['>'] :=
      expect_refuses (u := ['>']) (c := '*') (v := []) (w := []) fun _ starts => head_of_startsWith starts (by decide)
    exact .orElse_right refuses
      (Reads.behind (name_reads.bind (Reads.map (Reads.orElse_right (Refuses.bind other) expect_reads.map)) fun _ => marked))

theorem readArgLine_reads {line : ArgLine} (plain : line.Plain) :
    TextReader.Reads anyText readArgLine line.text line := by
  have name_reads := upTo_reads plain.name
  refine (readArgType_reads plain).bind (Reads.behind (name_reads.bind expect_reads.map ?_)) ?_
  · exact fun _ _ => startsWith_cons rfl
  · exact fun _ _ => startsWith_cons rfl

theorem ArgLine.text_ne_nil (line : ArgLine) : line.text ≠ [] := by
  intro none
  have length := congrArg List.length none
  rw [ArgLine.text, List.length_append, List.length_append] at length
  exact absurd length (by simp)

theorem readArgLines_reads {args : List ArgLine} {fuel : Nat} (plain : ∀ arg ∈ args, arg.Plain)
    (enough : args.length ≤ fuel) :
    TextReader.Reads (startsWith (· == ';')) (readArgLines fuel) (argLinesText args) args := by
  cases args with
  | nil =>
    refine .orElse_right (Refuses.bind (expect_refuses (u := []) (c := ' ') (v := "@ ".toList) ?_)) Reads.pure
    exact fun _ starts => head_of_startsWith starts (by decide)
  | cons arg args =>
    have each : ∀ a ∈ arg :: args, TextReader.Reads
        (fun rest => (∃ text, rest = ", ".toList ++ text) ∨ startsWith (· == ';') rest) readArgLine a.text a :=
      fun a member => (readArgLine_reads (plain a member)).imp fun _ _ => trivial
    have list : TextReader.Reads (startsWith (· == ';')) (sepBy ", ".toList readArgLine fuel)
        (sepText ", ".toList ArgLine.text (arg :: args)) (arg :: args) :=
      sepBy_reads each (List.cons_ne_nil arg args) enough fun _ starts => head_of_startsWith starts (by decide)
    exact .orElse_left (Reads.behind list)

theorem readBase_reads {line : TypeLine} {fuel : Nat} (plain : line.Plain)
    (enough : ∀ base ∈ line.base, base.2.length ≤ fuel) :
    TextReader.Reads (startsWith (· == ';')) (readBase fuel) line.baseText line.base := by
  obtain ⟨name, base⟩ := line
  cases base with
  | none =>
    refine .orElse_right (Refuses.bind (expect_refuses (u := []) (c := ' ') (v := ": ".toList) ?_)) Reads.pure
    exact fun _ starts => head_of_startsWith starts (by decide)
  | some base =>
    obtain ⟨base, args⟩ := base
    have base_reads := upTo_reads (plain.base _ rfl)
    have args_read := readArgLines_reads (plain.args _ rfl) (enough _ rfl)
    refine .orElse_left (Reads.behind (base_reads.bind args_read.map ?_))
    intro rest starts
    cases args with
    | nil =>
      intro c first
      have semicolon := starts c first
      simp only [semicolon, Bool.or_true]
    | cons arg args => exact startsWith_cons rfl

theorem readTypeLine_reads {line : TypeLine} {fuel : Nat} (plain : line.Plain)
    (enough : ∀ base ∈ line.base, base.2.length ≤ fuel) :
    TextReader.Reads anyText (readTypeLine fuel) line.text line := by
  have name_reads := upTo_reads plain.name
  refine Reads.behind (name_reads.bind (Reads.behind ((readBase_reads plain enough).bind expect_reads.map ?_)) ?_)
  · exact fun _ _ => startsWith_cons rfl
  · exact fun _ _ => startsWith_cons rfl

end RoundTrip

/-- The base of a type, as the lines of the listing name it. -/
def baseName (lines : List TypeLine) (name : CStr) : Option CStr :=
  (lines.find? fun line => line.name = name).bind fun line => line.base.map Prod.fst

section Listing
variable {ι : Type} {t : TypeTable ι}

theorem cptrType_name_free (c : CptrType) : ∀ d ∈ c.name, (d == '>') = false := by
  have all : (c.name.all fun d => !(d == '>')) = true := by cases c <;> rfl
  exact fun d member => Bool.not_eq_true' _ ▸ List.all_eq_true.mp all d member

theorem free_of_mark {name : CStr} {mark : Char} (ident : name.all isident = true) (other : isident mark = false) :
    ∀ c ∈ name, (c == mark) = false := by
  intro c member
  refine beq_eq_false_iff_ne.mpr ?_
  rintro rfl
  exact absurd (List.all_eq_true.mp ident c member) (by rw [other]; exact Bool.false_ne_true)

theorem TypeTable.WellNamed.arg (named : t.WellNamed) {i : ι} {arg : ArgDef ι} (member : arg ∈ (t.astType i).args) :
    (arg.line t).Plain := by
  have name : ∀ c ∈ arg.argName, (c == ']') = false := free_of_mark (named.argName i arg member) rfl
  have type (j : ι) : ∀ c ∈ (t.astType j).name, (c == '>') = false := free_of_mark (named.name j) rfl
  obtain ⟨argName, argType⟩ := arg
  cases argType with
  | node j => exact ⟨type j, name⟩
  | list j => exact ⟨type j, name⟩
  | cptr c => exact ⟨cptrType_name_free c, name⟩

theorem TypeTable.WellNamed.line (named : t.WellNamed) (i : ι) : ((t.astType i).line t).Plain where
  name := free_of_mark (named.name i) rfl
  base base shown := by
    obtain ⟨j, -, rfl⟩ := Option.map_eq_some_iff.mp shown
    intro c member
    exact Bool.or_eq_false_iff.mpr ⟨free_of_mark (named.name j) rfl c member, free_of_mark (named.name j) rfl c member⟩
  args base shown := by
    obtain ⟨j, -, rfl⟩ := Option.map_eq_some_iff.mp shown
    intro line member
    obtain ⟨arg, declared, rfl⟩ := List.mem_map.mp member
    exact named.arg declared

theorem TypeLine.text_ne_nil (line : TypeLine) : line.text ≠ [] := List.cons_ne_nil _ _

theorem TypeLine.args_within (line : TypeLine) : ∀ base ∈ line.base, base.2.length ≤ line.text.length := by
  intro base shown
  have args : base.2.length ≤ (argLinesText base.2).length := by
    rw [argLinesText]
    split
    case isTrue none => rw [none]; exact Nat.le_refl 0
    case isFalse _ =>
      rw [List.length_append]
      exact Nat.le_trans (TextReader.length_le_sepText fun arg _ => arg.text_ne_nil) (Nat.le_add_left _ _)
  have inside : line.baseText = " : ".toList ++ (base.1 ++ argLinesText base.2) := by rw [TypeLine.baseText, shown]
  simp only [TypeLine.text, inside, List.length_append]
  omega

/-- The listing, read back. -/
theorem readTypes_printTypes (named : t.WellNamed) : readTypes (printTypes t) = some t.lines := by
  rw [readTypes, printTypes_eq]
  refine TextReader.all_reads ?_ (fun line _ => line.text_ne_nil) (TextReader.length_le_flatMap fun line _ => line.text_ne_nil)
  intro line member
  refine readTypeLine_reads ?_ fun base shown => ?_
  · obtain ⟨i, -, rfl⟩ := List.mem_map.mp member
    exact named.line i
  · exact Nat.le_trans (line.args_within base shown) (TextReader.length_le_of_mem member)

theorem baseName_lines (distinct : ∀ i j, (t.astType i).name = (t.astType j).name → i = j) (i : ι) :
    baseName t.lines (t.astType i).name = ((t.astType i).base).map fun base => (t.astType base).name := by
  have found : t.types.find? (fun j => (t.astType j).name = (t.astType i).name) = some i := by
    cases search : t.types.find? fun j => (t.astType j).name = (t.astType i).name with
    | none => exact absurd (decide_eq_true rfl) (List.find?_eq_none.mp search i (t.complete i))
    | some j =>
      have named := List.find?_some search
      rw [distinct j i (of_decide_eq_true named)]
  have line : t.lines.find? (fun line => line.name = (t.astType i).name) = some ((t.astType i).line t) := by
    rw [TypeTable.lines, List.find?_map]
    exact congrArg (Option.map fun j => (t.astType j).line t) found
  rw [baseName, line, Option.bind_some, AstType.line, Option.map_map]
  rfl

/-- The listing can be read back, and the names in it tell which casts the evaluator accepts: the strict ones between
declarations of one name, the relaxed ones from a declaration to those that its bases lead to. -/
theorem printTypes_tells_casts [DecidableEq ι] (named : t.WellNamed)
    (distinct : ∀ i j, (t.astType i).name = (t.astType j).name → i = j) (acyclic : t.Acyclic) :
    readTypes (printTypes t) = some t.lines ∧
      (∀ dst src, t.typeCast true dst src = .yes ↔ (t.astType src).name = (t.astType dst).name) ∧
      ∀ dst src, t.typeCast false dst src = .yes ↔
        Walk.Meets (baseName t.lines) (t.astType src).name (t.astType dst).name := by
  refine ⟨readTypes_printTypes named, fun dst src => ?_, fun dst src => ?_⟩
  · rw [TypeTable.typeCast_strict_iff]
    exact ⟨fun same => same ▸ rfl, distinct src dst⟩
  · rw [t.typeCast_relaxed acyclic]
    exact (Walk.meets_map_iff (baseName_lines distinct) distinct).symm

theorem printTypes_tells_casts_cxxpy :
    readTypes (printTypes Cxxpy.table) = some Cxxpy.table.lines ∧
      (∀ dst src, Cxxpy.table.typeCast true dst src = .yes ↔
        (Cxxpy.table.astType src).name = (Cxxpy.table.astType dst).name) ∧
      ∀ dst src, Cxxpy.table.typeCast false dst src = .yes ↔
        Walk.Meets (baseName Cxxpy.table.lines) (Cxxpy.table.astType src).name (Cxxpy.table.astType dst).name :=
  printTypes_tells_casts Cxxpy.wellNamed Cxxpy.plain.distinct Cxxpy.acyclic

end Listing

end CxxpyTree.Obj
