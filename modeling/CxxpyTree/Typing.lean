import CxxpyTree.EvaluatorRun

/-! The typing rules of trees, and that the type maker decides them. -/

namespace CxxpyTree.Obj
open Machine

variable {ι : Type}

section Rules
variable [DecidableEq ι] (t : TypeTable ι) (strict : Bool)

/-- Strict casts ask for the same type; relaxed ones for the type itself or one of its bases. -/
def TypeCastable (src dst : ι) : Prop := if strict then src = dst else t.Derives src dst

def Castable : (src dst : ObjType ι) → Prop
  | .node src, .node dst => TypeCastable t strict src dst
  | .list src, .list dst => TypeCastable t strict src dst
  | .cptr _, .cptr _ => True
  | _, _ => False

/-- `name` stands in the table for `type`. -/
def TypeNamed (name : NodeName) (type : ι) : Prop := ⟨name.ident, type⟩ ∈ t.newFuncs

mutual

inductive NodeTyped : TreeNode → ι → Prop where
  | listArgs {name : NodeName} {list : List NodeArg} {type : ι} : TypeNamed t name type →
      ArgsTyped (t.astType type).args list → NodeTyped (.mk name (.listArgs list)) type
  | literalArgs {name : NodeName} {literal : Literal} {type : ι} {arg : ArgDef ι} {c : CptrType} :
      TypeNamed t name type → (t.astType type).args = [arg] → arg.argType = .cptr c →
      NodeTyped (.mk name (.literalArgs literal)) type

inductive ArgsTyped : List (ArgDef ι) → List NodeArg → Prop where
  | nil : ArgsTyped [] []
  | cons {arg : ArgDef ι} {args : List (ArgDef ι)} {name : ArgName} {value : ArgValue} {list : List NodeArg}
      {type : ObjType ι} : arg.argName = name.str → ValueTyped value type → Castable t strict type arg.argType →
      ArgsTyped args list → ArgsTyped (arg :: args) (.mk name value :: list)

inductive ValueTyped : ArgValue → ObjType ι → Prop where
  | nodeValue {node : TreeNode} {type : ι} : NodeTyped node type → ValueTyped (.nodeValue node) (.node type)
  | listValue {list : NodeList} {type : ι} : ListTyped list type → ValueTyped (.listValue list) (.list type)
  | literalValue {literal : Literal} : ValueTyped (.literalValue literal) (.cptr .charPtr)

inductive ListTyped : NodeList → ι → Prop where
  | mk {base : NodeName} {elems : List ListElem} {type : ι} : TypeNamed t base type →
      ElemsTyped type 0 elems → ListTyped (.mk base elems) type

/-- The elements from index `k` on. -/
inductive ElemsTyped : ι → Nat → List ListElem → Prop where
  | nil {base : ι} {k : Nat} : ElemsTyped base k []
  | cons {base : ι} {k : Nat} {index : UInt8} {node : TreeNode} {elems : List ListElem} {type : ι} :
      index.toNat = k → NodeTyped node type → TypeCastable t strict type base →
      ElemsTyped base (k + 1) elems → ElemsTyped base k (.mk index node :: elems)

end

end Rules

section Casts
variable [DecidableEq ι] {t : TypeTable ι} {strict : Bool} (acyclic : t.Acyclic)
include acyclic

theorem typeCast_iff {src dst : ι} : t.typeCast strict dst src = .yes ↔ TypeCastable t strict src dst := by
  unfold TypeCastable
  cases strict with
  | true => rw [TypeTable.typeCast_strict_iff, if_pos rfl]
  | false => rw [TypeTable.typeCast_relaxed acyclic, if_neg (by simp)]

theorem objTypeCast_iff {src dst : ObjType ι} : t.objTypeCast strict dst src = .yes ↔ Castable t strict src dst := by
  cases src <;> cases dst <;>
    first
      | exact typeCast_iff acyclic
      | exact iff_of_true rfl trivial
      | exact iff_of_false (fun cast => nomatch cast) id

end Casts

section Table
variable {t : TypeTable ι} {m : MakerState ι}

/-- On a sorted table a search finds what stands in it, and leaves the cache valid. -/
theorem find_named (sorted : t.Sorted) (valid : t.CacheValid m) {name : NodeName} {type : ι} (named : TypeNamed t name type) :
    ∃ m', t.find name.ident m = .ok ⟨name.ident, type⟩ m' ∧ t.CacheValid m' := by
  have looked : t.lookup name.ident = .ok ⟨name.ident, type⟩ := lookup_mem sorted named
  have found : t.find name.ident m = .ok ⟨name.ident, type⟩ { m with cache := some ⟨name.ident, type⟩ } := by
    rw [find_eq valid, looked]
  exact ⟨_, found, (find_valid valid found).2⟩

theorem named_of_find (valid : t.CacheValid m) {m' : MakerState ι} {name : NodeName} {entry : NewFuncs ι}
    (found : t.find name.ident m = .ok entry m') : TypeNamed t name entry.type := by
  obtain ⟨member, same⟩ := lookup_sound (find_valid valid found).1
  unfold TypeNamed
  rw [← same]
  exact member

end Table

section Sound
variable [DecidableEq ι] {t : TypeTable ι} {strict : Bool} (acyclic : t.Acyclic)

include acyclic

set_option linter.unusedSectionVars false in
mutual

theorem nodeTyped_of_value {node : TreeNode} {v : ObjType ι} {m m' : MakerState ι} (valid : t.CacheValid m)
    (returned : valueTreeNode t strict typeValues node m = .ok v m') :
    t.CacheValid m' ∧ ∃ type, v = .node type ∧ NodeTyped t strict node type := by
  cases node with
  | mk name args =>
    obtain ⟨objs, m₁, entry, m₂, valued, found, returned⟩ := valueTreeNode_returned returned
    obtain ⟨state, accepts, made⟩ := (nodeFromValues_ok (valueNodeArgs_length valued)).mp returned
    obtain ⟨valid₁, typed⟩ := argsTyped_of_value valid valued
    obtain ⟨_, valid₂⟩ := find_valid valid₁ found
    cases made
    exact ⟨cacheValid_of_cache (by rw [state]) valid₂, entry.type, rfl, typed name entry.type (named_of_find valid₁ found) accepts⟩
  termination_by structural node

theorem argsTyped_of_value {args : NodeArgs} {objs : List (StackObj (ObjType ι))} {m m' : MakerState ι}
    (valid : t.CacheValid m) (returned : valueNodeArgs t strict typeValues args m = .ok objs m') :
    t.CacheValid m' ∧ ∀ (name : NodeName) (type : ι), TypeNamed t name type → Accepts t strict id type args objs →
      NodeTyped t strict (.mk name args) type := by
  cases args with
  | listArgs list =>
    rw [valueNodeArgs] at returned
    obtain ⟨valid', typed⟩ := argListTyped_of_value valid returned
    exact ⟨valid', fun name type named accepts => .listArgs named (typed accepts)⟩
  | literalArgs literal =>
    rw [valueNodeArgs] at returned
    cases returned
    refine ⟨valid, fun name type named accepts => ?_⟩
    obtain ⟨arg, cast, declared⟩ : ∃ arg, t.objTypeCast strict arg.argType (.cptr .charPtr) = .yes ∧
        (t.astType type).args = [arg] := by
      have accepts : List.Forall₂ (fun arg obj => t.objTypeCast strict arg.argType (id obj.value) = .yes)
        (t.astType type).args [({ value := .cptr .charPtr } : StackObj (ObjType ι))] := accepts
      cases declared : (t.astType type).args with
      | nil => rw [declared] at accepts; cases accepts
      | cons arg args =>
        rw [declared] at accepts
        cases accepts with
        | cons cast rest => cases rest; exact ⟨arg, cast, rfl⟩
    have cptr := objTypeCast_cptr cast
    obtain ⟨argName, argType⟩ := arg
    cases argType with
    | cptr c => exact .literalArgs named declared rfl
    | node _ => cases cptr
    | list _ => cases cptr
  termination_by structural args

theorem argListTyped_of_value {list : List NodeArg} {objs : List (StackObj (ObjType ι))} {m m' : MakerState ι}
    (valid : t.CacheValid m) (returned : valueNodeArgList t strict typeValues list m = .ok objs m') :
    t.CacheValid m' ∧ ∀ {args : List (ArgDef ι)}, List.Forall₂ (Passes t strict id) args objs →
      ArgsTyped t strict args list := by
  cases list with
  | nil =>
    rw [valueNodeArgList] at returned
    cases returned
    refine ⟨valid, fun passes => ?_⟩
    cases passes
    exact .nil
  | cons arg list =>
    cases arg with
    | mk name value =>
      obtain ⟨type, m₁, objs, valued, rest, rfl⟩ := valueNodeArgList_returned returned
      obtain ⟨valid₁, typed⟩ := valueTyped_of_value valid valued
      obtain ⟨valid₂, typedRest⟩ := argListTyped_of_value valid₁ rest
      refine ⟨valid₂, fun passes => ?_⟩
      cases passes with
      | cons here later =>
        exact .cons (Option.some.inj here.1).symm typed ((objTypeCast_iff acyclic).mp here.2) (typedRest later)
  termination_by structural list

theorem valueTyped_of_value {value : ArgValue} {v : ObjType ι} {m m' : MakerState ι} (valid : t.CacheValid m)
    (returned : valueArgValue t strict typeValues value m = .ok v m') :
    t.CacheValid m' ∧ ValueTyped t strict value v := by
  cases value with
  | nodeValue node =>
    rw [valueArgValue] at returned
    obtain ⟨valid', type, rfl, typed⟩ := nodeTyped_of_value valid returned
    exact ⟨valid', .nodeValue typed⟩
  | listValue list =>
    rw [valueArgValue] at returned
    obtain ⟨valid', type, rfl, typed⟩ := listTyped_of_value valid returned
    exact ⟨valid', .listValue typed⟩
  | literalValue literal =>
    rw [valueArgValue] at returned
    cases returned
    exact ⟨valid, .literalValue⟩
  termination_by structural value

theorem listTyped_of_value {list : NodeList} {v : ObjType ι} {m m' : MakerState ι} (valid : t.CacheValid m)
    (returned : valueNodeList t strict typeValues list m = .ok v m') :
    t.CacheValid m' ∧ ∃ type, v = .list type ∧ ListTyped t strict list type := by
  cases list with
  | mk base elems =>
    obtain ⟨values, m₁, entry, m₂, valued, found, returned⟩ := valueNodeList_returned returned
    obtain ⟨state, casts, made⟩ := listFromValues_ok.mp returned
    obtain ⟨valid₁, typed⟩ := elemsTyped_of_value valid valued
    obtain ⟨_, valid₂⟩ := find_valid valid₁ found
    cases made
    exact ⟨cacheValid_of_cache (by rw [state]) valid₂, entry.type, rfl, .mk (named_of_find valid₁ found) (typed casts)⟩
  termination_by structural list

theorem elemsTyped_of_value {elems : List ListElem} {k : Nat} {values : List (ObjType ι)} {m m' : MakerState ι}
    (valid : t.CacheValid m) (returned : valueListElems t strict typeValues elems k m = .ok values m') :
    t.CacheValid m' ∧ ∀ {base : ι}, (∀ value ∈ values, t.listTypeCast strict base value = .yes) →
      ElemsTyped t strict base k elems := by
  cases elems with
  | nil =>
    rw [valueListElems] at returned
    cases returned
    exact ⟨valid, fun _ => .nil⟩
  | cons elem elems =>
    cases elem with
    | mk index node =>
      obtain ⟨v, m₁, values, same, first, rest, rfl⟩ := valueListElems_returned returned
      obtain ⟨valid₁, type, rfl, typed⟩ := nodeTyped_of_value valid first
      obtain ⟨valid₂, typedRest⟩ := elemsTyped_of_value valid₁ rest
      refine ⟨valid₂, fun casts => ?_⟩
      obtain ⟨here, later⟩ := List.forall_mem_cons.mp casts
      exact .cons same typed ((typeCast_iff acyclic).mp here) (typedRest later)
  termination_by structural elems

end

end Sound

section Complete
variable [DecidableEq ι] {t : TypeTable ι} {strict : Bool} (sorted : t.Sorted) (acyclic : t.Acyclic)

theorem node_of_accepts {type : ι} {args : NodeArgs} {objs : List (StackObj (ObjType ι))} {m : MakerState ι}
    (count : objs.length = argCount args) (accepts : Accepts t strict id type args objs) :
    ∃ m', nodeFromValues t strict typeValues type args objs m = .ok (.node type) m' ∧ m'.cache = m.cache :=
  ⟨_, (nodeFromValues_ok count).mpr ⟨rfl, accepts, rfl⟩, rfl⟩

theorem list_of_casts {type : ι} {values : List (ObjType ι)} {m : MakerState ι}
    (casts : ∀ value ∈ values, t.listTypeCast strict type value = .yes) :
    ∃ m', listFromValues t strict typeValues type values m = .ok (.list type) m' ∧ m'.cache = m.cache :=
  ⟨_, listFromValues_ok.mpr ⟨rfl, casts, rfl⟩, rfl⟩

include sorted acyclic

set_option linter.unusedSectionVars false in
mutual

theorem value_of_nodeTyped {node : TreeNode} {type : ι} (typed : NodeTyped t strict node type) {m : MakerState ι}
    (valid : t.CacheValid m) :
    ∃ m', valueTreeNode t strict typeValues node m = .ok (.node type) m' ∧ t.CacheValid m' := by
  cases node with
  | mk name args =>
    obtain ⟨objs, m₁, valued, valid₁, named, accepts⟩ := value_of_args typed valid
    obtain ⟨m₂, found, valid₂⟩ := find_named sorted valid₁ named
    obtain ⟨m₃, made, cached⟩ := node_of_accepts (valueNodeArgs_length valued) accepts
    refine ⟨m₃, ?_, cacheValid_of_cache cached valid₂⟩
    rw [valueTreeNode, bind_of_ok valued, bind_of_ok found]
    exact made
  termination_by structural node

theorem value_of_args {name : NodeName} {args : NodeArgs} {type : ι} (typed : NodeTyped t strict (.mk name args) type)
    {m : MakerState ι} (valid : t.CacheValid m) :
    ∃ objs m', valueNodeArgs t strict typeValues args m = .ok objs m' ∧ t.CacheValid m' ∧ TypeNamed t name type ∧
      Accepts t strict id type args objs := by
  cases args with
  | listArgs list =>
    cases typed with
    | listArgs named typed =>
      obtain ⟨objs, m', valued, valid', passes⟩ := value_of_argList typed valid
      exact ⟨objs, m', by rw [valueNodeArgs]; exact valued, valid', named, passes⟩
  | literalArgs literal =>
    cases typed with
    | @literalArgs _ _ _ arg c named declared cptr =>
      refine ⟨[{ value := .cptr .charPtr }], m, by rw [valueNodeArgs]; rfl, valid, named, ?_⟩
      unfold Accepts
      rw [declared]
      exact .cons (by rw [cptr]; rfl) .nil
  termination_by structural args

theorem value_of_argList {list : List NodeArg} {args : List (ArgDef ι)} (typed : ArgsTyped t strict args list)
    {m : MakerState ι} (valid : t.CacheValid m) :
    ∃ objs m', valueNodeArgList t strict typeValues list m = .ok objs m' ∧ t.CacheValid m' ∧
      List.Forall₂ (Passes t strict id) args objs := by
  cases list with
  | nil =>
    cases typed
    exact ⟨[], m, by rw [valueNodeArgList]; rfl, valid, .nil⟩
  | cons arg list =>
    cases arg with
    | mk name value =>
      cases typed with
      | @cons arg args _ _ _ type same typed castable rest =>
        obtain ⟨m₁, valued, valid₁⟩ := value_of_valueTyped typed valid
        obtain ⟨objs, m₂, listed, valid₂, passes⟩ := value_of_argList rest valid₁
        have first : valueNodeArg t strict typeValues (.mk name value) m = .ok { name := some name.str, value := type } m₁ := by
          rw [valueNodeArg, bind_of_ok valued]
          rfl
        refine ⟨{ name := some name.str, value := type } :: objs, m₂, ?_, valid₂, .cons ⟨?_, ?_⟩ passes⟩
        · rw [valueNodeArgList, bind_of_ok first, bind_of_ok listed]
          rfl
        · exact congrArg some same.symm
        · exact (objTypeCast_iff acyclic).mpr castable
  termination_by structural list

theorem value_of_valueTyped {value : ArgValue} {type : ObjType ι} (typed : ValueTyped t strict value type)
    {m : MakerState ι} (valid : t.CacheValid m) :
    ∃ m', valueArgValue t strict typeValues value m = .ok type m' ∧ t.CacheValid m' := by
  cases value with
  | nodeValue node =>
    cases typed with
    | nodeValue typed =>
      obtain ⟨m', valued, valid'⟩ := value_of_nodeTyped typed valid
      exact ⟨m', by rw [valueArgValue]; exact valued, valid'⟩
  | listValue list =>
    cases typed with
    | listValue typed =>
      obtain ⟨m', valued, valid'⟩ := value_of_listTyped typed valid
      exact ⟨m', by rw [valueArgValue]; exact valued, valid'⟩
  | literalValue literal =>
    cases typed
    exact ⟨m, by rw [valueArgValue]; rfl, valid⟩
  termination_by structural value

theorem value_of_listTyped {list : NodeList} {type : ι} (typed : ListTyped t strict list type) {m : MakerState ι}
    (valid : t.CacheValid m) :
    ∃ m', valueNodeList t strict typeValues list m = .ok (.list type) m' ∧ t.CacheValid m' := by
  cases list with
  | mk base elems =>
    cases typed with
    | mk named typed =>
      obtain ⟨values, m₁, valued, valid₁, casts⟩ := value_of_elems typed valid
      obtain ⟨m₂, found, valid₂⟩ := find_named sorted valid₁ named
      obtain ⟨m₃, made, cached⟩ := list_of_casts casts
      refine ⟨m₃, ?_, cacheValid_of_cache cached valid₂⟩
      rw [valueNodeList, bind_of_ok valued, bind_of_ok found]
      exact made
  termination_by structural list

theorem value_of_elems {elems : List ListElem} {base : ι} {k : Nat} (typed : ElemsTyped t strict base k elems)
    {m : MakerState ι} (valid : t.CacheValid m) :
    ∃ values m', valueListElems t strict typeValues elems k m = .ok values m' ∧ t.CacheValid m' ∧
      ∀ value ∈ values, t.listTypeCast strict base value = .yes := by
  cases elems with
  | nil => exact ⟨[], m, by rw [valueListElems]; rfl, valid, by simp⟩
  | cons elem elems =>
    cases elem with
    | mk index node =>
      cases typed with
      | @cons _ _ _ _ _ type same typed castable rest =>
        obtain ⟨m₁, valued, valid₁⟩ := value_of_nodeTyped typed valid
        obtain ⟨values, m₂, listed, valid₂, casts⟩ := value_of_elems rest valid₁
        have first : valueListElem t strict typeValues (.mk index node) k m = .ok (.node type) m₁ := by
          rw [valueListElem_run, if_neg (not_not.mpr same)]
          exact valued
        refine ⟨.node type :: values, m₂, ?_, valid₂, List.forall_mem_cons.mpr ⟨(typeCast_iff acyclic).mpr castable, casts⟩⟩
        rw [valueListElems, bind_of_ok first, bind_of_ok listed]
        rfl
  termination_by structural elems

end

end Complete

section Theorem
variable [DecidableEq ι] (t : TypeTable ι) (strict : Bool)

/-- The type maker returns a value on exactly the well typed trees, the node type of the root's name. -/
theorem typeMaker_decides_typing (sorted : t.Sorted) (acyclic : t.Acyclic) (tree : Tree) (m : MakerState ι)
    (clear : m.nargError = false) (valid : t.CacheValid m) (v : ObjType ι) :
    (eval t (TypeMaker t strict) tree m).1 = .ok v ↔
      ∃ name args type, tree.root = .mk name args ∧ TypeNamed t name type ∧ v = .node type ∧
        NodeTyped t strict tree.root type := by
  rw [eval_run (typeMaker_implements t strict) tree (by rw [clear]; nofun)]
  constructor
  · intro returned
    split at returned
    next value m' outcome =>
      cases returned
      obtain ⟨_, type, rfl, typed⟩ := nodeTyped_of_value acyclic valid outcome
      cases root : tree.root with
      | mk name args =>
        rw [root] at typed
        refine ⟨name, args, type, rfl, ?_, rfl, typed⟩
        cases typed with
        | listArgs named _ => exact named
        | literalArgs named _ _ => exact named
    next => cases returned
  · rintro ⟨name, args, type, _, _, rfl, typed⟩
    obtain ⟨m', valued, _⟩ := value_of_nodeTyped sorted acyclic typed valid
    rw [valued]

end Theorem

/-- Two types, `A` and its derived `B`, which takes an `A`. -/
def pairTable : TypeTable Bool where
  types := [false, true]
  complete := mem_false_true
  astType
    | false => ⟨"A".toList, none, []⟩
    | true => ⟨"B".toList, some false, [⟨"a".toList, .node false⟩]⟩
  newFuncs := [⟨"A".toList, false⟩, ⟨"B".toList, true⟩]

theorem pairTable_sorted : pairTable.Sorted := by
  refine List.pairwise_pair.mpr ?_
  decide

theorem pairTable_acyclic : pairTable.Acyclic :=
  Walk.acyclic_of_rank (fun i => if i then 1 else 0) (by decide)

/-- `B(.a=A())`, and a `B` around it: well typed under relaxed casts only. -/
def pairInner : TreeNode :=
  .mk ⟨"B".toList⟩ (.listArgs [.mk ⟨"a".toList⟩ (.nodeValue (.mk ⟨"A".toList⟩ (.listArgs [])))])

theorem typeMaker_decides_typing_pair :
    (eval pairTable (TypeMaker pairTable false)
      ⟨.mk ⟨"B".toList⟩ (.listArgs [.mk ⟨"a".toList⟩ (.nodeValue pairInner)])⟩ {}).1 = .ok (.node true) := by
  have a : TypeNamed pairTable ⟨"A".toList⟩ false := by simp [TypeNamed, pairTable]
  have b : TypeNamed pairTable ⟨"B".toList⟩ true := by simp [TypeNamed, pairTable]
  have inner : NodeTyped pairTable false pairInner true :=
    .listArgs b (.cons rfl (.nodeValue (.listArgs a .nil)) ⟨0, rfl⟩ .nil)
  exact (typeMaker_decides_typing pairTable false pairTable_sorted pairTable_acyclic _ {} rfl
    (fun _ cached => nomatch cached) _).mpr
      ⟨_, _, true, rfl, b, rfl, .listArgs b (.cons rfl (.nodeValue inner) ⟨1, rfl⟩ .nil)⟩

end CxxpyTree.Obj
