import CxxpyTree.Abc

/-! Which of several wrong arguments a check names. -/

namespace CxxpyTree.Obj
open Machine

variable {ι : Type} [DecidableEq ι] (t : TypeTable ι) (strict : Bool)

/-- How a check ends on a value that is not cast: with its message, or where the cast itself ends. -/
def CastResult.fault (src dst : ObjType ι) (uncastable : ObjError) : CastResult → Stop ι
  | .cycle => .cycle src
  | .diverges => .diverges src dst
  | _ => .error uncastable

/-- An argument as it is declared, with the name and the value that it is given. -/
structure GivenArg (ι V : Type) where
  decl : ArgDef ι
  name : CStr
  value : V

section Args
variable {V : Type} (objType : V → ObjType ι) (type : ι)

def GivenArg.Wrong (arg : GivenArg ι V) : Prop :=
  arg.name ≠ arg.decl.argName ∨ t.objTypeCast strict arg.decl.argType (objType arg.value) ≠ .yes

instance (arg : GivenArg ι V) : Decidable (arg.Wrong t strict objType) := inferInstanceAs (Decidable (_ ∨ _))

/-- What is reported of a wrong argument: its name, and the type only under the right name. -/
def argFault (k : Nat) (arg : GivenArg ι V) : Stop ι :=
  if arg.name ≠ arg.decl.argName then .error (.argName (t.astType type).name k arg.decl.argName arg.name)
  else
    (t.objTypeCast strict arg.decl.argType (objType arg.value)).fault (objType arg.value) arg.decl.argType
      (.argCast (t.astType type).name k (t.typeName (objType arg.value)) (t.typeName arg.decl.argType))

def elemFault (k : Nat) (obj : StackObj V) : Stop ι :=
  (t.listTypeCast strict type (objType obj.value)).fault (objType obj.value) (.node type)
    (.elemCast (t.astType type).name k (t.typeName (objType obj.value)))

/-- The objects of the arguments, in source order. -/
def namedObjs (list : List NodeArg) (values : List V) : List (StackObj V) :=
  List.zipWith (fun arg value => { name := some arg.name.str, value }) list values

def givenArgs (decls : List (ArgDef ι)) (list : List NodeArg) (values : List V) : List (GivenArg ι V) :=
  List.zipWith (fun decl given => ⟨decl, given.1.name.str, given.2⟩) decls (list.zip values)

variable {t strict objType type} {k : Nat}

omit [DecidableEq ι] in
theorem castFault {result : CastResult} {src dst : ObjType ι} {uncastable : ObjError} (other : result ≠ .yes) :
    (result.answer src dst >>= fun cast => if !cast then throw (.error uncastable) else pure PUnit.unit) =
      .error (result.fault src dst uncastable) := by
  rw [answer_bind]
  cases result <;> first | rfl | exact absurd rfl other

/-- The check of an argument under the name it is given. -/
def checkGiven (t : TypeTable ι) (strict : Bool) (objType : V → ObjType ι) (type : ι) (k : Nat) (arg : GivenArg ι V) :
    Except (Stop ι) Unit :=
  checkNodeArg t strict objType type arg.decl k ⟨some arg.name, arg.value⟩

theorem checkGiven_ok (k : Nat) (arg : GivenArg ι V) :
    checkGiven t strict objType type k arg = .ok () ↔ ¬ arg.Wrong t strict objType := by
  unfold checkGiven GivenArg.Wrong
  rw [checkNodeArg_ok, not_or, not_not, not_not, Option.some_inj]

theorem checkGiven_error (k : Nat) (arg : GivenArg ι V) (wrong : arg.Wrong t strict objType) :
    checkGiven t strict objType type k arg = .error (argFault t strict objType type k arg) := by
  unfold checkGiven checkNodeArg argFault
  by_cases named : arg.name = arg.decl.argName
  · have accepted : checkNodeArgName t type arg.decl k (some arg.name) = .ok () :=
      checkNodeArgName_ok.mpr (congrArg some named)
    have other := wrong.resolve_left (not_not.mpr named)
    rw [except_bind_eq_error]
    refine .inr ⟨(), accepted, ?_⟩
    rw [if_neg (not_not.mpr named)]
    exact castFault other
  · rw [except_bind_eq_error, if_pos named]
    refine .inl ?_
    rw [checkNodeArgName, if_pos (fun same => named same.symm)]
    rfl

theorem checkArgs_given : ∀ (decls : List (ArgDef ι)) (list : List NodeArg) (values : List V) (k : Nat),
    checkArgs t strict objType type k decls (namedObjs list values) =
      checkFrom (checkGiven t strict objType type) k (givenArgs decls list values)
  | [], _, _, _ => rfl
  | _ :: _, [], _, _ => rfl
  | _ :: _, _ :: _, [], _ => rfl
  | decl :: decls, arg :: list, value :: values, k => by
    have rest := checkArgs_given decls list values (k + 1)
    change (_ >>= fun _ => checkArgs t strict objType type (k + 1) decls (namedObjs list values)) = _
    rw [rest]
    rfl

/-- The check of an element, whose object has no name. -/
def checkElem (t : TypeTable ι) (strict : Bool) (objType : V → ObjType ι) (type : ι) (k : Nat) (obj : StackObj V) :
    Except (Stop ι) Unit :=
  checkListArg t strict type k (objType obj.value)

theorem checkElem_ok (k : Nat) (obj : StackObj V) : checkElem t strict objType type k obj = .ok () ↔
    ¬ t.listTypeCast strict type (objType obj.value) ≠ .yes := by
  unfold checkElem
  rw [checkListArg_ok, not_not]

theorem checkElem_error (k : Nat) (obj : StackObj V) (other : t.listTypeCast strict type (objType obj.value) ≠ .yes) :
    checkElem t strict objType type k obj = .error (elemFault t strict objType type k obj) :=
  castFault other

theorem checkElems_objs : ∀ (objs : List (StackObj V)) (k : Nat),
    checkElems t strict objType type k (objs.map StackObj.value) = checkFrom (checkElem t strict objType type) k objs
  | [], _ => rfl
  | obj :: objs, k => by
    rw [List.map_cons, checkElems, checkFrom, checkElems_objs objs (k + 1)]
    rfl

theorem length_namedObjs {list : List NodeArg} {values : List V} (given : values.length = list.length) :
    (namedObjs list values).length = list.length := by
  simp [namedObjs, given]

/-- The number that a message of these checks gives. -/
def ObjError.number : ObjError → Option Nat
  | .argName _ k _ _ | .argCast _ k _ _ | .elemCast _ k _ => some k
  | _ => none

omit [DecidableEq ι] in
theorem fault_acyclic {result : CastResult} {src dst : ObjType ι} {uncastable : ObjError}
    (ends : result = .yes ∨ result = .no) : result.fault src dst uncastable = .error uncastable := by
  rcases ends with rfl | rfl <;> rfl

theorem objTypeCast_acyclic {dst src : ObjType ι} (acyclic : t.Acyclic) :
    t.objTypeCast strict dst src = .yes ∨ t.objTypeCast strict dst src = .no := by
  cases dst <;> cases src <;> first | exact TypeTable.typeCast_acyclic acyclic | simp [TypeTable.objTypeCast]

theorem argFault_number (acyclic : t.Acyclic) (k : Nat) (arg : GivenArg ι V) :
    ∃ err, argFault t strict objType type k arg = .error err ∧ err.number = some k := by
  unfold argFault
  split
  · exact ⟨_, rfl, rfl⟩
  · exact ⟨_, fault_acyclic (objTypeCast_acyclic acyclic), rfl⟩

theorem elemFault_number (acyclic : t.Acyclic) (k : Nat) (obj : StackObj V) :
    ∃ err, elemFault t strict objType type k obj = .error err ∧ err.number = some k := by
  refine ⟨_, fault_acyclic ?_, rfl⟩
  cases objType obj.value with
  | node _ => exact TypeTable.typeCast_acyclic acyclic
  | list _ => exact .inr rfl
  | cptr _ => exact .inr rfl

theorem checkNodeArgs_reports {list : List NodeArg} {values : List V} (declared : list.length = narg t type)
    (given : values.length = list.length) (name : NodeName) (below : List (StackObj V)) (m : MakerState ι) :
    ReportsFirst (checkNodeArgs t strict objType type (.mk name (.listArgs list)))
      ⟨(namedObjs list values).reverse ++ below, m⟩ 1 (givenArgs (t.astType type).args list values)
      (GivenArg.Wrong t strict objType) (argFault t strict objType type) := by
  apply reportsFirst_of_checks checkGiven_ok checkGiven_error
  rw [checkNodeArgs_run t strict objType type name (.listArgs list) _ below m (length_namedObjs given), withMaker_run]
  simp only [checkNodeValues, declared, ne_eq, not_true_eq_false, if_false, checkArgs_given, check_run]
  cases checkFrom (checkGiven t strict objType type) 1 (givenArgs (t.astType type).args list values) <;> rfl

/-- The loop of `check_node_args` with `k` in a `size_t`: it wraps around behind the last argument,
and without any argument before the loop. -/
def checkNodeArgsWrapping (t : TypeTable ι) (strict : Bool) (objType : V → ObjType ι) (type : ι) :
    (args : List (ArgDef ι)) → (k : Nat) → EvalM ι V Unit
  | [], _ => pure ()
  | arg :: args, k => do
    check (checkNodeArg t strict objType type arg ((narg t type + 2 ^ 64 - k) % 2 ^ 64) (← stackAt k))
    checkNodeArgsWrapping t strict objType type args ((k + 2 ^ 64 - 1) % 2 ^ 64)

/-- No value that has wrapped around is ever read. -/
theorem checkNodeArgsWrapping_eq (bound : narg t type < 2 ^ 64) : ∀ (args : List (ArgDef ι)), args.length ≤ narg t type →
    checkNodeArgsWrapping t strict objType type args ((args.length + 2 ^ 64 - 1) % 2 ^ 64) =
      checkNodeArgsLoop t strict objType type args (args.length - 1)
  | [], _ => rfl
  | arg :: args, fits => by
    simp only [List.length_cons] at fits
    have rest := checkNodeArgsWrapping_eq bound args (by omega)
    have counter : (args.length + 1 + 2 ^ 64 - 1) % 2 ^ 64 = args.length := by omega
    have number : (narg t type + 2 ^ 64 - args.length) % 2 ^ 64 = narg t type - args.length := by omega
    rw [checkNodeArgsWrapping, checkNodeArgsLoop, List.length_cons, counter, number, rest, Nat.add_sub_cancel]

theorem checkListArgs_reports {elems : List ListElem} {objs : List (StackObj V)} (evaluated : objs.length = elems.length)
    (base : NodeName) (below : List (StackObj V)) (m : MakerState ι) :
    ReportsFirst (checkListArgs t strict objType type (.mk base elems)) ⟨objs.reverse ++ below, m⟩ 0 objs
      (fun obj => t.listTypeCast strict type (objType obj.value) ≠ .yes) (elemFault t strict objType type) := by
  apply reportsFirst_of_checks checkElem_ok checkElem_error
  have looped := checkListArgsLoop_run t strict objType type m objs.length objs below (Nat.le_refl _)
  rw [Nat.sub_self, checkElems_objs] at looped
  rw [checkListArgs, ← evaluated, looped, check_run]
  cases checkFrom (checkElem t strict objType type) 0 objs <;> rfl

/-- Named arguments as many as the type declares are checked from the left, each by its name before
its type, and counted from one; the elements of a list are counted from zero. Where no base chain
comes round, what stops a check is a message with that number. -/
theorem wrong_args_reported (t : TypeTable ι) (strict : Bool) (objType : V → ObjType ι) (type elemType : ι)
    {list : List NodeArg} {values : List V} (declared : list.length = narg t type)
    (given : values.length = list.length) {elems : List ListElem} {objs : List (StackObj V)}
    (evaluated : objs.length = elems.length) (name base : NodeName) (below : List (StackObj V)) (m : MakerState ι) :
    ReportsFirst (checkNodeArgs t strict objType type (.mk name (.listArgs list)))
      ⟨(namedObjs list values).reverse ++ below, m⟩ 1 (givenArgs (t.astType type).args list values)
      (GivenArg.Wrong t strict objType) (argFault t strict objType type) ∧
    ReportsFirst (checkListArgs t strict objType elemType (.mk base elems)) ⟨objs.reverse ++ below, m⟩ 0 objs
      (fun obj => t.listTypeCast strict elemType (objType obj.value) ≠ .yes) (elemFault t strict objType elemType) ∧
    (t.Acyclic → ∀ k,
      (∀ arg, ∃ err, argFault t strict objType type k arg = .error err ∧ err.number = some k) ∧
      ∀ obj, ∃ err, elemFault t strict objType elemType k obj = .error err ∧ err.number = some k) :=
  ⟨checkNodeArgs_reports declared given name below m, checkListArgs_reports evaluated base below m,
    fun acyclic k => ⟨argFault_number acyclic k, elemFault_number acyclic k⟩⟩

end Args

/-- The arguments of `N(.x=B() .w=A() .z=A())`. -/
def misnamed : List NodeArg :=
  [.mk ⟨"x".toList⟩ (.nodeValue (.mk ⟨"B".toList⟩ (.listArgs []))),
    .mk ⟨"w".toList⟩ (.nodeValue (.mk ⟨"A".toList⟩ (.listArgs []))),
    .mk ⟨"z".toList⟩ (.nodeValue (.mk ⟨"A".toList⟩ (.listArgs [])))]

def misnamedTypes : List (ObjType Abc.NodeType) := [.node .b, .node .a, .node .a]

/-- The elements of `list<R>[R() A()]`. -/
def mixed : List ListElem :=
  [.mk 0 (.mk ⟨"R".toList⟩ (.listArgs [])), .mk 1 (.mk ⟨"A".toList⟩ (.listArgs []))]

def mixedObjs : List (StackObj (ObjType Abc.NodeType)) := [{ value := .node .r }, { value := .node .a }]

/-- Of two wrong arguments the second is named, by its name and not by its type; of the elements the
one with index one. -/
theorem misnamed_reported :
    checkNodeArgs Abc.table false id .n (.mk ⟨"N".toList⟩ (.listArgs misnamed))
        ⟨(namedObjs misnamed misnamedTypes).reverse ++ [], {}⟩ =
      .error (.error (.argName "N".toList 2 "y".toList "w".toList))
        ⟨(namedObjs misnamed misnamedTypes).reverse ++ [], {}⟩ ∧
    checkListArgs Abc.table false id .r (.mk ⟨"R".toList⟩ mixed) ⟨mixedObjs.reverse ++ [], {}⟩ =
      .error (.error (.elemCast "R".toList 1 "A".toList)) ⟨mixedObjs.reverse ++ [], {}⟩ := by
  have reported := wrong_args_reported Abc.table false id .n .r (show misnamed.length = narg Abc.table .n from rfl)
    (show misnamedTypes.length = misnamed.length from rfl) (show mixedObjs.length = mixed.length from rfl)
    ⟨"N".toList⟩ ⟨"R".toList⟩ [] {}
  constructor
  · refine (reported.1.first 1 ⟨⟨"y".toList, .node .c⟩, "w".toList, .node .a⟩ rfl (by decide) ?_).trans rfl
    rintro (_ | j) other earlier inside
    · cases inside
      decide
    · omega
  · refine (reported.2.1.first 1 { value := .node .a } rfl (by decide) ?_).trans rfl
    rintro (_ | j) other earlier inside
    · cases inside
      decide
    · omega

end CxxpyTree.Obj
