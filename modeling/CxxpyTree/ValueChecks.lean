import CxxpyTree.TreeValue
import Mathlib.Data.Char
import Mathlib.Data.List.Lex

/-! What it means that a check passes, and what the lookup of a type name finds. -/

namespace CxxpyTree.Obj
open Machine

variable {ι : Type}

theorem check_run {σ α : Type} (answer : Except (Stop ι) α) (s : σ) :
    check answer s = match answer with
      | .ok a => .ok a s
      | .error stop => .error stop s := by
  cases answer <;> rfl

def ObjType.isCptr : ObjType ι → Bool
  | .cptr _ => true
  | _ => false

section Lookup
variable {t : TypeTable ι} {name : CStr} {entry : NewFuncs ι} {m m' : MakerState ι}

theorem strcmpLt_total : BinarySearch.StrictTotal strcmpLt where
  irrefl a := by simp [strcmpLt]
  trans a b c first second := by
    simp only [strcmpLt, decide_eq_true_eq] at first second ⊢
    exact lt_trans first second
  connected a b notLess notGreater := by
    simp only [strcmpLt, decide_eq_false_iff_not] at notLess notGreater
    rcases lt_trichotomy a b with less | same | greater
    · exact absurd less notLess
    · exact same
    · exact absurd greater notGreater

/-- The names in strictly ascending order, as `equal_range` and the assertion after it ask for. -/
def TypeTable.Sorted (t : TypeTable ι) : Prop := BinarySearch.Ascending NewFuncs.name strcmpLt t.newFuncs

theorem lookup_ok_iff : t.lookup name = .ok entry ↔
    (BinarySearch.keyRange NewFuncs.name strcmpLt t.newFuncs name).2 =
        (BinarySearch.keyRange NewFuncs.name strcmpLt t.newFuncs name).1 + 1 ∧
      t.newFuncs[(BinarySearch.keyRange NewFuncs.name strcmpLt t.newFuncs name).1]? = some entry := by
  unfold TypeTable.lookup
  generalize BinarySearch.keyRange NewFuncs.name strcmpLt t.newFuncs name = rng
  dsimp only
  by_cases empty : rng.2 = rng.1
  · simp [empty]
  · by_cases single : rng.2 = rng.1 + 1
    · cases found : t.newFuncs[rng.1]? <;> simp [single]
    · simp [empty, single]

/-- On any table: what is found stands in it under the name. -/
theorem lookup_sound (found : t.lookup name = .ok entry) : entry ∈ t.newFuncs ∧ entry.name = name := by
  obtain ⟨single, inside⟩ := lookup_ok_iff.mp found
  exact ⟨List.mem_of_getElem? inside, strcmpLt_total.key_of_range single inside⟩

theorem lookup_mem (sorted : t.Sorted) (member : entry ∈ t.newFuncs) : t.lookup entry.name = .ok entry := by
  obtain ⟨n, inside⟩ := List.mem_iff_getElem?.mp member
  have range := BinarySearch.range_of_mem strcmpLt_total sorted inside
  exact lookup_ok_iff.mpr (by rw [range]; exact ⟨rfl, inside⟩)

theorem lookup_absent (sorted : t.Sorted) (absent : ∀ entry ∈ t.newFuncs, entry.name ≠ name) :
    t.lookup name = .error (.error (.unknownType name)) := by
  have empty := BinarySearch.range_of_absent strcmpLt_total sorted absent
  unfold TypeTable.lookup
  simp only [empty, true_or, not_true_eq_false, if_false, if_true]

theorem find_run : t.find name m =
    match m.cache.filter (fun cache => cache.name = name) with
    | some cache => .ok cache m
    | none =>
      match t.lookup name with
      | .ok entry => .ok entry { m with cache := some entry }
      | .error stop => .error stop m := by
  unfold TypeTable.find
  rw [get_bind]
  cases m.cache.filter (fun cache => cache.name = name) with
  | some cache => rfl
  | none => cases t.lookup name <;> rfl

/-- A lookup changes nothing but the cache. -/
theorem find_ok (found : t.find name m = .ok entry m') : m' = { m with cache := some entry } := by
  rw [find_run] at found
  split at found
  next cache hit =>
    cases found
    rw [(Option.filter_eq_some_iff.mp hit).1.symm]
  next =>
    split at found <;> cases found
    rfl

theorem find_flag (found : t.find name m = .ok entry m') : m'.nargError = m.nargError := by
  rw [find_ok found]

theorem find_error {stop : Stop ι} (failed : t.find name m = .error stop m') : m' = m := by
  rw [find_run] at failed
  split at failed
  next => cases failed
  next =>
    split at failed <;> cases failed
    rfl

/-- The cache holds nothing, or what a lookup of the same name finds. -/
def TypeTable.CacheValid (t : TypeTable ι) (m : MakerState ι) : Prop :=
  ∀ entry, m.cache = some entry → t.lookup entry.name = .ok entry

theorem cacheValid_of_cache (same : m'.cache = m.cache) (valid : t.CacheValid m) : t.CacheValid m' := by
  intro entry cached
  exact valid entry (same ▸ cached)

theorem find_eq (valid : t.CacheValid m) : t.find name m =
    match t.lookup name with
    | .ok entry => .ok entry { m with cache := some entry }
    | .error stop => .error stop m := by
  rw [find_run]
  cases hit : m.cache.filter (fun cache => cache.name = name) with
  | none => rfl
  | some entry =>
    obtain ⟨cached, same⟩ := Option.filter_eq_some_iff.mp hit
    have again := valid entry cached
    rw [of_decide_eq_true same] at again
    rw [again]
    cases m
    cases cached
    rfl

theorem find_valid (valid : t.CacheValid m) (found : t.find name m = .ok entry m') :
    t.lookup name = .ok entry ∧ t.CacheValid m' := by
  have state := find_ok found
  rw [find_eq valid] at found
  split at found
  next entry' looked =>
    cases found
    refine ⟨looked, fun other cached => ?_⟩
    cases cached
    rw [(lookup_sound looked).2]
    exact looked
  next => cases found

end Lookup

section Passing
variable [DecidableEq ι] {t : TypeTable ι} {strict : Bool} {V : Type} {objType : V → ObjType ι}

theorem objTypeCast_cptr {dst : ObjType ι} {c : CptrType} (cast : t.objTypeCast strict dst (.cptr c) = .yes) :
    dst.isCptr = true := by
  rcases TypeTable.objTypeCast_cases cast (by decide) with ⟨_, _, other, _⟩ | ⟨_, _, other, _⟩ | ⟨_, _, _, rfl, -⟩
  · cases other
  · cases other
  · rfl

/-- A value that is cast to the declared type of an argument is of its kind. -/
theorem castValue_cases {argType : ObjType ι} {v : ObjValue ι} (cast : t.objTypeCast strict argType v.type = .yes) :
    (∃ T i ptr, argType = .node T ∧ v = .node i ptr ∧ t.typeCast strict T i = .yes) ∨
    (∃ T i elems, argType = .list T ∧ v = .list i elems ∧ t.typeCast strict T i = .yes) ∨
    (∃ c ptr, argType = .cptr c ∧ v = .cptr ptr) := by
  cases v with
  | node i ptr =>
    rcases TypeTable.objTypeCast_cases cast (by decide) with ⟨_, T, ⟨⟩, rfl, same⟩ | ⟨_, _, ⟨⟩, -⟩ | ⟨_, _, ⟨⟩, -⟩
    exact .inl ⟨T, _, ptr, rfl, rfl, same⟩
  | list i elems =>
    rcases TypeTable.objTypeCast_cases cast (by decide) with ⟨_, _, ⟨⟩, -⟩ | ⟨_, T, ⟨⟩, rfl, same⟩ | ⟨_, _, ⟨⟩, -⟩
    exact .inr (.inl ⟨T, _, elems, rfl, rfl, same⟩)
  | cptr ptr =>
    rcases TypeTable.objTypeCast_cases cast (by decide) with ⟨_, _, ⟨⟩, -⟩ | ⟨_, _, ⟨⟩, -⟩ | ⟨_, c, ⟨⟩, rfl, -⟩
    exact .inr (.inr ⟨c, ptr, rfl, rfl⟩)

omit [DecidableEq ι] in
theorem cptrCast_cases {c : CptrType} {ptr : CStr} {field : Field ι} (made : cptrCast c ptr = .ok field) :
    (c = .charPtr ∧ field = .charPtr ptr) ∨ (c = .bool ∧ ∃ val, field = .bool val) ∨
      (c = .compOp ∧ ∃ val, field = .compOp val) := by
  cases c with
  | charPtr => cases made; exact .inl ⟨rfl, rfl⟩
  | bool =>
    simp only [cptrCast] at made
    split at made <;> cases made
    exact .inr (.inl ⟨rfl, _, rfl⟩)
  | compOp =>
    simp only [cptrCast] at made
    split at made <;> cases made
    exact .inr (.inr ⟨rfl, _, rfl⟩)

omit [DecidableEq ι] in
theorem answer_bind {result : CastResult} {src dst : ObjType ι} {fail : Stop ι} :
    (result.answer src dst >>= fun cast => if !cast then throw fail else pure PUnit.unit) =
      match result with
      | .yes => .ok ()
      | .no => .error fail
      | .cycle => .error (.cycle src)
      | .diverges => .error (.diverges src dst) := by
  cases result <;> rfl

variable {type : ι} {arg : ArgDef ι} {k : Nat}

theorem checkNodeArgValue_ok {value : ObjType ι} :
    checkNodeArgValue t strict type arg k value = .ok () ↔ t.objTypeCast strict arg.argType value = .yes := by
  unfold checkNodeArgValue
  rw [answer_bind]
  cases t.objTypeCast strict arg.argType value <;> simp

theorem checkListArg_ok {value : ObjType ι} :
    checkListArg t strict type k value = .ok () ↔ t.listTypeCast strict type value = .yes := by
  unfold checkListArg
  rw [answer_bind]
  cases t.listTypeCast strict type value <;> simp

omit [DecidableEq ι] in
theorem checkNodeArgName_ok {name : Option CStr} :
    checkNodeArgName t type arg k name = .ok () ↔ name = some arg.argName := by
  cases name with
  | none => exact iff_of_false (fun passed => nomatch passed) (fun passed => nomatch passed)
  | some name =>
    unfold checkNodeArgName
    by_cases same : arg.argName = name
    · simp [same, pure, Except.pure]
    · have other : ¬ name = arg.argName := fun back => same back.symm
      simp [same, other, throw, throwThe, MonadExceptOf.throw]

theorem checkNodeArg_ok {obj : StackObj V} : checkNodeArg t strict objType type arg k obj = .ok () ↔
    obj.name = some arg.argName ∧ t.objTypeCast strict arg.argType (objType obj.value) = .yes := by
  unfold checkNodeArg
  rw [Machine.except_then_eq_ok, checkNodeArgName_ok, checkNodeArgValue_ok]

/-- An argument that has passed its check. -/
def Passes (t : TypeTable ι) (strict : Bool) (objType : V → ObjType ι) (arg : ArgDef ι) (obj : StackObj V) : Prop :=
  obj.name = some arg.argName ∧ t.objTypeCast strict arg.argType (objType obj.value) = .yes

theorem checkArgs_ok : ∀ (args : List (ArgDef ι)) (objs : List (StackObj V)) (k : Nat), args.length = objs.length →
    (checkArgs t strict objType type k args objs = .ok () ↔ List.Forall₂ (Passes t strict objType) args objs)
  | [], [], _, _ => iff_of_true rfl .nil
  | arg :: args, obj :: objs, k, same => by
    have rest := checkArgs_ok args objs (k + 1) (Nat.succ.inj same)
    rw [checkArgs, Machine.except_then_eq_ok, List.forall₂_cons, rest]
    exact and_congr_left' checkNodeArg_ok

theorem checkElems_ok : ∀ (values : List V) (k : Nat), checkElems t strict objType type k values = .ok () ↔
    ∀ value ∈ values, t.listTypeCast strict type (objType value) = .yes
  | [], _ => iff_of_true rfl (by simp)
  | value :: values, k => by
    have rest := checkElems_ok values (k + 1)
    rw [checkElems, Machine.except_then_eq_ok, List.forall_mem_cons, rest]
    exact and_congr_left' checkListArg_ok

end Passing

def argCount : NodeArgs → Nat
  | .literalArgs _ => 1
  | .listArgs list => list.length

section Parts
variable [DecidableEq ι] {t : TypeTable ι} {strict : Bool} {V : Type}

/-- The arguments that a type accepts; the single literal of `T('x')` needs no name. -/
def Accepts (t : TypeTable ι) (strict : Bool) (objType : V → ObjType ι) (type : ι) (args : NodeArgs)
    (objs : List (StackObj V)) : Prop :=
  match args with
  | .literalArgs _ =>
    List.Forall₂ (fun arg obj => t.objTypeCast strict arg.argType (objType obj.value) = .yes) (t.astType type).args objs
  | .listArgs _ => List.Forall₂ (Passes t strict objType) (t.astType type).args objs

theorem Accepts.casts {objType : V → ObjType ι} {type : ι} {args : NodeArgs} {objs : List (StackObj V)}
    (accepts : Accepts t strict objType type args objs) :
    List.Forall₂ (fun arg obj => t.objTypeCast strict arg.argType (objType obj.value) = .yes)
      (t.astType type).args objs := by
  cases args with
  | literalArgs _ => exact accepts
  | listArgs _ => exact accepts.imp fun _ _ passes => passes.2

omit [DecidableEq ι] in
theorem check_eq_ok {σ : Type} {answer : Except (Stop ι) Unit} {s s' : σ} :
    check answer s = .ok () s' ↔ s' = s ∧ answer = .ok () := by
  cases answer with
  | ok _ => exact ⟨fun same => by cases same; exact ⟨rfl, rfl⟩, fun ⟨same, _⟩ => by rw [same]; rfl⟩
  | error _ => exact iff_of_false (fun same => nomatch same) (fun both => nomatch both.2)

/-- The checks pass on accepted arguments and leave the state alone. -/
theorem checkNodeValues_ok {objType : V → ObjType ι} {type : ι} {args : NodeArgs} {objs : List (StackObj V)}
    {m m' : MakerState ι} (count : objs.length = argCount args) :
    checkNodeValues t strict objType type args objs m = .ok () m' ↔
      m' = m ∧ Accepts t strict objType type args objs := by
  have counted : Accepts t strict objType type args objs → narg t type = argCount args :=
    fun accepts => accepts.casts.length_eq.trans count
  cases args with
  | literalArgs literal =>
    obtain ⟨obj, rfl⟩ := List.length_eq_one_iff.mp count
    by_cases arity : narg t type = 1
    · obtain ⟨arg, declared⟩ := List.length_eq_one_iff.mp arity
      simp only [checkNodeValues, arity, declared, ne_eq, not_true_eq_false, if_false, Accepts]
      rw [check_eq_ok, checkNodeArgValue_ok]
      simp
    · simp only [checkNodeValues, arity, ne_eq, not_false_eq_true, if_true]
      refine iff_of_false ?_ fun both => arity (counted both.2)
      intro same
      cases same
  | listArgs list =>
    by_cases arity : narg t type = list.length
    · simp only [checkNodeValues, arity, ne_eq, not_true_eq_false, if_false, Accepts]
      rw [check_eq_ok, checkArgs_ok _ _ _ (arity.trans count.symm)]
    · simp only [checkNodeValues, arity, ne_eq, not_false_eq_true, if_true]
      refine iff_of_false ?_ fun both => arity (counted both.2)
      intro same
      cases same

variable {vals : Values ι V} {type : ι} {args : NodeArgs} {objs : List (StackObj V)} {values : List V}
  {m m' : MakerState ι}

theorem nodeFromValues_run : nodeFromValues t strict vals type args objs m =
    match checkNodeValues t strict vals.objType type args objs m with
    | .error e m' => .error e m'
    | .ok _ m' =>
      match vals.node type (objs.map StackObj.value) with
      | .error e => .error e { m' with nargError := false }
      | .ok v => .ok v { m' with nargError := false, ast := m'.ast ++ vals.made v, asked := m'.asked ++ vals.asks v } := by
  unfold nodeFromValues
  cases held : checkNodeValues t strict vals.objType type args objs m with
  | error e m' => exact bind_of_error held
  | ok _ m' =>
    rw [bind_of_ok held, modify_bind]
    cases made : vals.node type (objs.map StackObj.value) <;> rfl

theorem listFromValues_run : listFromValues t strict vals type values m =
    match checkElems t strict vals.objType type 0 values with
    | .error e => .error e m
    | .ok _ =>
      match vals.list type values with
      | .error e => .error e { m with nargError := false, asked := m.asked ++ vals.listAsks values.length }
      | .ok v => .ok v { m with nargError := false, asked := m.asked ++ vals.listAsks values.length } := by
  unfold listFromValues
  cases held : checkElems t strict vals.objType type 0 values with
  | error e => rfl
  | ok _ =>
    rw [bind_of_ok (show check (.ok _) m = .ok _ m from rfl), modify_bind, check_run]
    cases vals.list type values <;> rfl

theorem nodeFromValues_ok {v : V} (count : objs.length = argCount args) :
    nodeFromValues t strict vals type args objs m = .ok v m' ↔
      m' = { m with nargError := false, ast := m.ast ++ vals.made v, asked := m.asked ++ vals.asks v } ∧
        Accepts t strict vals.objType type args objs ∧ vals.node type (objs.map StackObj.value) = .ok v := by
  rw [nodeFromValues_run]
  constructor
  · intro returned
    split at returned
    next => cases returned
    next held =>
      obtain ⟨rfl, accepts⟩ := (checkNodeValues_ok count).mp held
      split at returned
      next => cases returned
      next made => cases returned; exact ⟨rfl, accepts, made⟩
  · rintro ⟨rfl, accepts, made⟩
    have held := (checkNodeValues_ok count (m := m)).mpr ⟨rfl, accepts⟩
    rw [held]
    simp only [made]

theorem listFromValues_ok {v : V} : listFromValues t strict vals type values m = .ok v m' ↔
    m' = { m with nargError := false, asked := m.asked ++ vals.listAsks values.length } ∧
      (∀ value ∈ values, t.listTypeCast strict type (vals.objType value) = .yes) ∧
      vals.list type values = .ok v := by
  rw [listFromValues_run]
  constructor
  · intro returned
    split at returned
    next => cases returned
    next held =>
      split at returned
      next => cases returned
      next made => cases returned; exact ⟨rfl, (checkElems_ok _ _).mp held, made⟩
  · rintro ⟨rfl, casts, made⟩
    have held : checkElems t strict vals.objType type 0 values = .ok () := (checkElems_ok _ _).mpr casts
    rw [held]
    simp only [made]

end Parts

end CxxpyTree.Obj
