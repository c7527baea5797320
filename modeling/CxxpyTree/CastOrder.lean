import CxxpyTree.Evaluator

/-! Casts as a relation between types: the order along the base links, and what becomes of a cast
where the links run into a cycle. -/

namespace CxxpyTree.Obj

variable {ι : Type} [DecidableEq ι] {t : TypeTable ι}

namespace TypeTable

/-- What a relaxed cast comes to, by the chain of the source: it meets the target; it ends; it comes
back to the source; or it runs into a cycle that the source is not on, and the loop never ends. -/
theorem typeCast_outcome (dst src : ι) :
    (t.typeCast false dst src = .yes ∧ t.Derives src dst) ∨
    (t.typeCast false dst src = .no ∧ ¬ t.Derives src dst ∧ ¬ Walk.Endless t.base src) ∨
    (t.typeCast false dst src = .cycle ∧ ¬ t.Derives src dst ∧ Walk.Returns t.base src) ∨
    (t.typeCast false dst src = .diverges ∧ t.EndlessCast src dst) := by
  cases result : t.typeCast false dst src with
  | yes => exact .inl ⟨rfl, typeCast_yes result⟩
  | no =>
    obtain ⟨⟨n, ended⟩, never⟩ := castLoop_no result
    exact .inr (.inl ⟨rfl, never, fun endless => endless n ended⟩)
  | cycle =>
    obtain ⟨n, back, missed⟩ := castLoop_cycle result
    refine .inr (.inr (.inl ⟨rfl, ?_, ⟨n, back⟩⟩))
    intro derives
    obtain ⟨m, small, met⟩ := Walk.Meets.within_round back derives
    exact missed m small met
  | diverges => exact .inr (.inr (.inr ⟨rfl, (typeCast_diverges_iff.mp result).2⟩))

/-- A cast answers by the chain of the source, and on a chain that runs into a cycle without the
target it raises the error about the cycle. -/
structure Detects (t : TypeTable ι) (dst src : ι) : Prop where
  terminates : ∃ fuel, t.castLoop dst src fuel src ≠ .diverges
  yes : t.Derives src dst → t.typeCast false dst src = .yes
  no : ¬ t.Derives src dst → ¬ Walk.Endless t.base src → t.typeCast false dst src = .no
  cycle : ¬ t.Derives src dst → Walk.Endless t.base src → t.typeCast false dst src = .cycle

/-- On every table a cast detects what it should exactly if the chain of the source meets the
target, ends, or comes back to the source. -/
theorem typeCast_detects_iff (t : TypeTable ι) (dst src : ι) :
    t.Detects dst src ↔ t.Derives src dst ∨ ¬ Walk.Endless t.base src ∨ Walk.Returns t.base src := by
  constructor
  · intro detects
    obtain ⟨fuel, ends⟩ := detects.terminates
    by_contra none
    rw [not_or, not_or, not_not] at none
    obtain ⟨never, endless, passed⟩ := none
    apply ends
    rw [castLoop_diverges_iff]
    intro m _
    exact ⟨fun met => never ⟨m, met⟩, endless (m + 1), fun back => passed ⟨m, back⟩⟩
  · intro shape
    rcases typeCast_outcome (t := t) dst src with ⟨result, derives⟩ | ⟨result, never, ends⟩ | ⟨result, never, returns⟩ | ⟨result, endless⟩
    · exact ⟨⟨_, fun same => nomatch result.symm.trans same⟩, fun _ => result, fun never => absurd derives never,
        fun never => absurd derives never⟩
    · exact ⟨⟨_, fun same => nomatch result.symm.trans same⟩, fun derives => absurd derives never, fun _ _ => result,
        fun _ endless => absurd endless ends⟩
    · exact ⟨⟨_, fun same => nomatch result.symm.trans same⟩, fun derives => absurd derives never,
        fun _ ends => absurd returns.endless ends, fun _ _ => result⟩
    · rcases shape with derives | ends | returns
      · exact absurd derives endless.never
      · exact absurd endless.endless ends
      · exact absurd returns endless.passed

end TypeTable

/-- `A` derives from `B`, and `B` from itself. -/
def selfBased : TypeTable (Fin 3) where
  types := [0, 1, 2]
  complete := mem_zero_one_two
  astType
    | 0 => ⟨"A".toList, some 1, []⟩
    | 1 => ⟨"B".toList, some 1, []⟩
    | 2 => ⟨"C".toList, none, []⟩
  newFuncs := [⟨"A".toList, 0⟩, ⟨"B".toList, 1⟩, ⟨"C".toList, 2⟩]

/-- The cast from `A` to `C` goes round `B` for ever. -/
theorem selfBased_not_detected : ¬ selfBased.Detects 2 0 := by
  intro detects
  have result : selfBased.typeCast false 2 0 = .diverges := by decide
  have endless := (TypeTable.typeCast_diverges_iff.mp result).2
  have raised := detects.cycle endless.never endless.endless
  rw [result] at raised
  cases raised

namespace TypeTable

/-- Along acyclic base links casts are the preorder "is the type or one of its bases", or equality
when they are strict; lists are cast as their elements are, and no kind is cast to another. -/
structure CastsOrdered (t : TypeTable ι) : Prop where
  terminates : ∀ strict dst src, t.typeCast strict dst src = .yes ∨ t.typeCast strict dst src = .no
  relaxed : ∀ dst src, t.typeCast false dst src = .yes ↔ t.Derives src dst
  strict : ∀ dst src, t.typeCast true dst src = .yes ↔ src = dst
  refl : ∀ strict a, t.objTypeCast strict a a = .yes
  trans : ∀ strict a b c, t.objTypeCast strict b a = .yes → t.objTypeCast strict c b = .yes → t.objTypeCast strict c a = .yes
  kinds : ∀ strict a b, a.kindName ≠ b.kindName → t.objTypeCast strict b a = .no
  lists : ∀ strict q r, t.objTypeCast strict (.list q) (.list r) = t.objTypeCast strict (.node q) (.node r)
  antisymm : ∀ strict a b, t.objTypeCast strict (.node b) (.node a) = .yes →
    t.objTypeCast strict (.node a) (.node b) = .yes → a = b

section Acyclic
variable {strict : Bool} {i j k : ι} {a b c : ObjType ι} (acyclic : t.Acyclic)
include acyclic

theorem typeCast_refl : t.typeCast strict i i = .yes := by
  cases strict with
  | true => exact typeCast_strict_iff.mpr rfl
  | false => exact (typeCast_relaxed acyclic).mpr .refl

theorem typeCast_trans (first : t.typeCast strict j i = .yes) (second : t.typeCast strict k j = .yes) :
    t.typeCast strict k i = .yes := by
  cases strict with
  | true => exact typeCast_strict_iff.mpr ((typeCast_strict_iff.mp first).trans (typeCast_strict_iff.mp second))
  | false => exact (typeCast_relaxed acyclic).mpr ((typeCast_yes first).trans (typeCast_yes second))

theorem objTypeCast_refl : t.objTypeCast strict a a = .yes := by
  cases a with
  | node i => exact typeCast_refl acyclic
  | list i => exact typeCast_refl acyclic
  | cptr => rfl

theorem objTypeCast_trans (first : t.objTypeCast strict b a = .yes) (second : t.objTypeCast strict c b = .yes) :
    t.objTypeCast strict c a = .yes := by
  rcases objTypeCast_cases first (by decide) with ⟨i, j, rfl, rfl, low⟩ | ⟨i, j, rfl, rfl, low⟩ | ⟨_, _, rfl, rfl, -⟩
  · cases c with
    | node k => exact typeCast_trans acyclic low second
    | list _ => cases second
    | cptr _ => cases second
  · cases c with
    | node _ => cases second
    | list k => exact typeCast_trans acyclic low second
    | cptr _ => cases second
  · cases c with
    | node _ => cases second
    | list _ => cases second
    | cptr _ => rfl

theorem casts_ordered : t.CastsOrdered where
  terminates _ _ _ := typeCast_acyclic acyclic
  relaxed _ _ := typeCast_relaxed acyclic
  strict _ _ := typeCast_strict_iff
  refl _ _ := objTypeCast_refl acyclic
  trans _ _ _ _ := objTypeCast_trans acyclic
  kinds _ a b other := by cases a <;> cases b <;> first | rfl | exact absurd rfl other
  lists _ _ _ := rfl
  antisymm _ _ _ there back := acyclic.antisymm (typeCast_yes there) (typeCast_yes back)

end Acyclic

end TypeTable

/-- `A` derives from `B`, and `B` from `C`. -/
def chained : TypeTable (Fin 3) where
  types := [0, 1, 2]
  complete := mem_zero_one_two
  astType
    | 0 => ⟨"A".toList, some 1, []⟩
    | 1 => ⟨"B".toList, some 2, []⟩
    | 2 => ⟨"C".toList, none, []⟩
  newFuncs := [⟨"A".toList, 0⟩, ⟨"B".toList, 1⟩, ⟨"C".toList, 2⟩]

theorem chained_ordered : chained.CastsOrdered ∧ chained.typeCast false 2 0 = .yes ∧ chained.typeCast false 0 2 = .no :=
  ⟨TypeTable.casts_ordered (Walk.acyclic_of_rank (fun i => 2 - i.val) (by decide)), by decide, by decide⟩

end CxxpyTree.Obj
