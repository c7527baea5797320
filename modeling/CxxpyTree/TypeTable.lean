import CxxpyTree.Ctype
import CxxpyTree.Lib.BinarySearch
import CxxpyTree.Lib.Walk

/-! The types of tree/eval.hpp: what an extension library declares about its AST types, and
the casts between them. A pointer to an `ast_type_t` is an index of `ι`. -/

namespace CxxpyTree.Obj

/-- The instances of `cptr_type_t`. -/
inductive CptrType where
  | charPtr
  | bool
  | compOp
  deriving DecidableEq, Repr

def CptrType.name : CptrType → CStr
  | .charPtr => "char*".toList
  | .bool => "bool".toList
  | .compOp => "AST::comp_op_t::type_t".toList

inductive ObjType (ι : Type) where
  | node (astType : ι)
  | list (astType : ι)
  | cptr (cptrType : CptrType)
  deriving DecidableEq, Repr

structure ArgDef (ι : Type) where
  argName : CStr
  argType : ObjType ι

/-- `narg` is the length of `args`. -/
structure AstType (ι : Type) where
  name : CStr
  base : Option ι
  args : List (ArgDef ι)

/-- `new_funcs_t`: `type` is the `T` of the entry's `new_node<T>` and `new_list<T>`. -/
structure NewFuncs (ι : Type) where
  name : CStr
  type : ι
  deriving DecidableEq

/-- The tables of an extension library; `types` lists every type. -/
structure TypeTable (ι : Type) where
  types : List ι
  complete : ∀ i, i ∈ types
  astType : ι → AstType ι
  newFuncs : List (NewFuncs ι)

theorem mem_false_true : ∀ i : Bool, i ∈ [false, true] := by decide
theorem mem_zero_one_two : ∀ i : Fin 3, i ∈ [0, 1, 2] := by decide

/-- How a cast ends: with an answer, in the error about a cycle, or not at all. -/
inductive CastResult where
  | yes
  | no
  | cycle
  | diverges
  deriving DecidableEq, Repr

variable {ι : Type}

namespace TypeTable

variable [DecidableEq ι] (t : TypeTable ι)

def base (i : ι) : Option ι := (t.astType i).base

/-- The loop of `ast_type_t::type_cast`; a walk of more than `types.length` steps never ends. -/
def castLoop (dst src : ι) : (fuel : Nat) → (ptr : ι) → CastResult
  | 0, _ => .diverges
  | fuel + 1, ptr =>
    if ptr = dst then .yes
    else
      match t.base ptr with
      | none => .no
      | some base => if base = src then .cycle else castLoop dst src fuel base

/-- `dst->type_cast(src, info)`. -/
def typeCast (strict : Bool) (dst src : ι) : CastResult :=
  if strict then if src = dst then .yes else .no else t.castLoop dst src t.types.length src

def listTypeCast (strict : Bool) (dst : ι) : ObjType ι → CastResult
  | .node src => t.typeCast strict dst src
  | _ => .no

/-- `obj_type_t::type_cast`: two C pointers are not compared any further. -/
def objTypeCast (strict : Bool) : (dst src : ObjType ι) → CastResult
  | .node dst, .node src => t.typeCast strict dst src
  | .list dst, .list src => t.typeCast strict dst src
  | .cptr _, .cptr _ => .yes
  | _, _ => .no

def typeName : ObjType ι → CStr
  | .node i => (t.astType i).name
  | .list i => "list<".toList ++ (t.astType i).name ++ ">".toList
  | .cptr c => c.name

/-- `src` is `dst` or has it in its base chain. -/
def Derives (src dst : ι) : Prop := Walk.Meets t.base src dst

/-- Following the base pointers from `src` never ends and comes upon neither `dst` nor `src` again. -/
structure EndlessCast (src dst : ι) : Prop where
  endless : Walk.Endless t.base src
  never : ¬ t.Derives src dst
  passed : ¬ Walk.Returns t.base src

def Acyclic : Prop := Walk.Acyclic t.base

section Loop
variable {t} {dst src ptr : ι} {fuel : Nat}

/-- Where the loop returns: it has not met the target before, and meets it there, or finds no base,
or the start again. -/
theorem castLoop_stops {result : CastResult} (outcome : t.castLoop dst src fuel ptr = result) (stops : result ≠ .diverges) :
    ∃ n last, Walk.after t.base n ptr = some last ∧ (∀ m < n, Walk.after t.base m ptr ≠ some dst) ∧
      (result = .yes ∧ last = dst ∨
        last ≠ dst ∧ (result = .no ∧ t.base last = none ∨ result = .cycle ∧ t.base last = some src)) := by
  induction fuel generalizing ptr with
  | zero => exact absurd outcome.symm stops
  | succ fuel ih =>
    have none_before : ∀ m < 0, Walk.after t.base m ptr ≠ some dst := fun m early => absurd early (Nat.not_lt_zero m)
    unfold castLoop at outcome
    by_cases same : ptr = dst
    · rw [if_pos same] at outcome
      exact ⟨0, ptr, rfl, none_before, .inl ⟨outcome.symm, same⟩⟩
    · rw [if_neg same] at outcome
      cases step : t.base ptr with
      | none =>
        rw [step] at outcome
        exact ⟨0, ptr, rfl, none_before, .inr ⟨same, .inl ⟨outcome.symm, step⟩⟩⟩
      | some base =>
        rw [step] at outcome
        dsimp only at outcome
        by_cases back : base = src
        · rw [if_pos back] at outcome
          exact ⟨0, ptr, rfl, none_before, .inr ⟨same, .inr ⟨outcome.symm, back ▸ step⟩⟩⟩
        · rw [if_neg back] at outcome
          obtain ⟨n, last, reached, missed, ends⟩ := ih outcome
          refine ⟨n + 1, last, by rw [Walk.after_succ, step]; exact reached, ?_, ends⟩
          rintro (_ | m) early
          · exact fun met => same (Option.some.inj met)
          · rw [Walk.after_succ, step]
            exact missed m (Nat.lt_of_succ_lt_succ early)

theorem castLoop_yes (result : t.castLoop dst src fuel ptr = .yes) : t.Derives ptr dst := by
  obtain ⟨n, last, reached, -, ⟨-, rfl⟩ | ⟨-, ⟨other, -⟩ | ⟨other, -⟩⟩⟩ := castLoop_stops result (by decide)
  · exact ⟨n, reached⟩
  · cases other
  · cases other

theorem castLoop_no (result : t.castLoop dst src fuel ptr = .no) :
    (∃ n, Walk.after t.base n ptr = none) ∧ ¬ t.Derives ptr dst := by
  obtain ⟨n, last, reached, missed, ⟨other, -⟩ | ⟨other, ⟨-, ended⟩ | ⟨again, -⟩⟩⟩ := castLoop_stops result (by decide)
  · cases other
  · have ends : Walk.after t.base (n + 1) ptr = none := by
      rw [Walk.after_add, reached, Option.bind_some, Walk.after_succ, ended, Option.bind_none]
    refine ⟨⟨n + 1, ends⟩, ?_⟩
    rintro ⟨m, met⟩
    rcases Nat.lt_trichotomy m n with early | rfl | late
    · exact missed m early met
    · exact other (Option.some.inj (reached.symm.trans met))
    · exact Walk.going_before met late ends
  · cases again

/-- The loop comes back to the start without having met the target. -/
theorem castLoop_cycle (result : t.castLoop dst src fuel ptr = .cycle) :
    ∃ n, Walk.after t.base (n + 1) ptr = some src ∧ ∀ m ≤ n, Walk.after t.base m ptr ≠ some dst := by
  obtain ⟨n, last, reached, missed, ⟨other, -⟩ | ⟨other, ⟨again, -⟩ | ⟨-, back⟩⟩⟩ := castLoop_stops result (by decide)
  · cases other
  · cases again
  · refine ⟨n, ?_, ?_⟩
    · rw [Walk.after_add, reached, Option.bind_some, Walk.after_succ, back, Option.bind_some, Walk.after_zero]
    · intro m early met
      rcases Nat.lt_or_eq_of_le early with before | rfl
      · exact missed m before met
      · exact other (Option.some.inj (reached.symm.trans met))

theorem castLoop_diverges_iff : t.castLoop dst src fuel ptr = .diverges ↔
    ∀ m, m < fuel → Walk.after t.base m ptr ≠ some dst ∧
      Walk.after t.base (m + 1) ptr ≠ none ∧ Walk.after t.base (m + 1) ptr ≠ some src := by
  induction fuel generalizing ptr with
  | zero => simp [castLoop]
  | succ fuel ih =>
    have split_first : ∀ P : Nat → Prop, (∀ m, m < fuel + 1 → P m) ↔ P 0 ∧ ∀ m, m < fuel → P (m + 1) := by
      intro P
      refine ⟨fun all => ⟨all 0 (by omega), fun m inside => all (m + 1) (by omega)⟩, ?_⟩
      rintro ⟨first, rest⟩ (_ | m) inside
      · exact first
      · exact rest m (by omega)
    rw [split_first]
    unfold castLoop
    by_cases same : ptr = dst
    · simp [same]
    · cases step : t.base ptr with
      | none => simp [same, Walk.after_succ, step]
      | some base =>
        by_cases back : base = src
        · simp [same, Walk.after_succ, step, back]
        · have onward : ∀ m, Walk.after t.base (m + 1) ptr = Walk.after t.base m base := by
            intro m
            rw [Walk.after_succ, step]
            rfl
          simp [same, onward, back, ih]

end Loop

section Cast
variable {t} {strict : Bool} {dst src : ι}

theorem typeCast_strict : t.typeCast true dst src = if src = dst then .yes else .no := rfl

theorem typeCast_strict_iff : t.typeCast true dst src = .yes ↔ src = dst := by
  by_cases same : src = dst <;> simp [typeCast_strict, same]

theorem typeCast_yes (result : t.typeCast strict dst src = .yes) : t.Derives src dst := by
  cases strict with
  | true => exact typeCast_strict_iff.mp result ▸ Walk.Meets.refl
  | false => exact castLoop_yes result

/-- The loop gives up only on a walk that shows neither its target nor its start again. -/
theorem typeCast_diverges_iff : t.typeCast strict dst src = .diverges ↔ strict = false ∧ t.EndlessCast src dst := by
  cases strict with
  | true => by_cases same : src = dst <;> simp [typeCast_strict, same]
  | false =>
    change t.castLoop dst src _ src = .diverges ↔ _
    simp only [castLoop_diverges_iff, true_and]
    constructor
    · intro seen
      refine ⟨?_, ?_, ?_⟩
      · intro n ended
        obtain ⟨m, early, stops⟩ := Walk.ends_early t.complete ⟨n, ended⟩
        cases m with
        | zero => cases stops
        | succ m => exact (seen m early).2.1 stops
      · intro derives
        obtain ⟨m, early, met⟩ := Walk.meets_early t.complete derives
        exact (seen m early).1 met
      · intro returns
        obtain ⟨m, early, back⟩ := Walk.returns_early t.complete returns
        exact (seen m early).2.2 back
    · intro endless m _
      exact ⟨fun met => endless.never ⟨m, met⟩, endless.endless (m + 1), fun back => endless.passed ⟨m, back⟩⟩

/-- A cast of objects that is not just refused is one between two of a kind. -/
theorem objTypeCast_cases {dst src : ObjType ι} {result : CastResult} (cast : t.objTypeCast strict dst src = result)
    (other : result ≠ .no) :
    (∃ i j, src = .node i ∧ dst = .node j ∧ t.typeCast strict j i = result) ∨
    (∃ i j, src = .list i ∧ dst = .list j ∧ t.typeCast strict j i = result) ∨
    (∃ c d, src = .cptr c ∧ dst = .cptr d ∧ result = .yes) := by
  cases src with
  | node i =>
    cases dst with
    | node j => exact .inl ⟨i, j, rfl, rfl, cast⟩
    | list _ => exact absurd cast.symm other
    | cptr _ => exact absurd cast.symm other
  | list i =>
    cases dst with
    | node _ => exact absurd cast.symm other
    | list j => exact .inr (.inl ⟨i, j, rfl, rfl, cast⟩)
    | cptr _ => exact absurd cast.symm other
  | cptr c =>
    cases dst with
    | node _ => exact absurd cast.symm other
    | list _ => exact absurd cast.symm other
    | cptr d => exact .inr (.inr ⟨c, d, rfl, rfl, cast.symm⟩)

theorem listTypeCast_cases {dst : ι} {src : ObjType ι} {result : CastResult} (cast : t.listTypeCast strict dst src = result)
    (other : result ≠ .no) : ∃ i, src = .node i ∧ t.typeCast strict dst i = result := by
  cases src with
  | node i => exact ⟨i, rfl, cast⟩
  | list _ => exact absurd cast.symm other
  | cptr _ => exact absurd cast.symm other

section Acyclic
variable (acyclic : t.Acyclic)
include acyclic

theorem typeCast_acyclic : t.typeCast strict dst src = .yes ∨ t.typeCast strict dst src = .no := by
  cases result : t.typeCast strict dst src with
  | yes => exact .inl rfl
  | no => exact .inr rfl
  | cycle =>
    cases strict with
    | true => by_cases same : src = dst <;> simp [typeCast_strict, same] at result
    | false =>
      obtain ⟨n, back, -⟩ := castLoop_cycle result
      exact absurd ⟨n, back⟩ (acyclic src)
  | diverges =>
    obtain ⟨_, endless⟩ := typeCast_diverges_iff.mp result
    exact absurd endless.endless (acyclic.ends t.complete src)

theorem typeCast_relaxed : t.typeCast false dst src = .yes ↔ t.Derives src dst := by
  refine ⟨typeCast_yes, fun derives => ?_⟩
  rcases @typeCast_acyclic _ _ t false dst src acyclic with yes | no
  · exact yes
  · exact absurd derives (castLoop_no no).2

end Acyclic

end Cast

end TypeTable

end CxxpyTree.Obj
