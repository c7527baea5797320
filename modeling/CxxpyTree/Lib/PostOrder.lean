import Mathlib.Logic.Relation
import Mathlib.Data.List.Flatten

/-! Post-order listings of a tree that is given by the children of each of its nodes. -/

namespace PostOrder

variable {α : Type} (children : α → List α)

mutual

/-- The listing of a node: those of its children one after the other, then the node itself. -/
inductive Lists : α → List α → Prop where
  | node {x l} (below : ListsAll (children x) l) : Lists x (l ++ [x])

inductive ListsAll : List α → List α → Prop where
  | nil : ListsAll [] []
  | cons {x xs l m} (first : Lists x l) (rest : ListsAll xs m) : ListsAll (x :: xs) (l ++ m)

end

/-- `y` can be reached from `x` by going from nodes to their children. -/
def Reaches : α → α → Prop := Relation.ReflTransGen fun x y => y ∈ children x

section Facts
variable {children} {x y : α} {xs l : List α}

theorem Lists.leaf (none : children x = []) : Lists children x [x] := by
  have below : ListsAll children (children x) [] := by
    rw [none]
    exact .nil
  exact .node below

theorem Lists.singleton (first : Lists children x l) : ListsAll children [x] l := by
  have both := ListsAll.cons first .nil
  rwa [List.append_nil] at both

set_option linter.unusedSectionVars false in
mutual

theorem Lists.reaches : ∀ {x l}, Lists children x l → ∀ y ∈ l, Reaches children x y
  | x, _, .node below, y, member => by
    rcases List.mem_append.mp member with inside | last
    · obtain ⟨child, mem, reached⟩ := below.reaches y inside
      exact Relation.ReflTransGen.head mem reached
    · rw [List.mem_singleton.mp last]
      exact .refl

theorem ListsAll.reaches : ∀ {xs l}, ListsAll children xs l → ∀ y ∈ l, ∃ x ∈ xs, Reaches children x y
  | _, _, .nil, y, member => absurd member List.not_mem_nil
  | _, _, .cons first rest, y, member => by
    rcases List.mem_append.mp member with left | right
    · exact ⟨_, List.mem_cons_self, first.reaches y left⟩
    · obtain ⟨x, mem, reached⟩ := rest.reaches y right
      exact ⟨x, List.mem_cons_of_mem _ mem, reached⟩

end

theorem Lists.root_mem (lists : Lists children x l) : x ∈ l := by
  cases lists
  simp

theorem ListsAll.mem (lists : ListsAll children xs l) (member : x ∈ xs) : x ∈ l := by
  induction xs generalizing l with
  | nil => cases member
  | cons first xs ih =>
    cases lists with
    | cons head rest =>
      rcases List.mem_cons.mp member with rfl | later
      · exact List.mem_append_left _ head.root_mem
      · exact List.mem_append_right _ (ih rest later)

set_option linter.unusedSectionVars false in
mutual

/-- Every node comes after all its children. -/
theorem Lists.children_before : ∀ {x l}, Lists children x l → ∀ {before node after}, l = before ++ node :: after →
    ∀ child ∈ children node, child ∈ before
  | x, _, .node below, before, node, after, same, child, member => by
    rcases List.append_eq_append_iff.mp same with ⟨more, split, tail⟩ | ⟨more, split, tail⟩
    · cases more with
      | nil =>
        cases tail
        rw [split, List.append_nil]
        exact below.mem member
      | cons head more => cases more <;> cases tail
    · cases more with
      | nil =>
        cases tail
        rw [List.append_nil] at split
        exact split ▸ below.mem member
      | cons head more =>
        obtain ⟨rfl, -⟩ := List.cons.inj tail
        exact below.children_before split child member

theorem ListsAll.children_before : ∀ {xs l}, ListsAll children xs l → ∀ {before node after},
    l = before ++ node :: after → ∀ child ∈ children node, child ∈ before
  | _, _, .nil, before, node, after, same, child, member => absurd same (by simp)
  | _, _, .cons first rest, before, node, after, same, child, member => by
    rcases List.append_eq_append_iff.mp same with ⟨more, split, tail⟩ | ⟨more, split, tail⟩
    · rw [split]
      exact List.mem_append_right _ (rest.children_before tail child member)
    · cases more with
      | nil =>
        have atStart : _ = [] ++ node :: after := tail.symm
        exact absurd (rest.children_before atStart child member) List.not_mem_nil
      | cons head more =>
        obtain ⟨rfl, -⟩ := List.cons.inj tail
        exact first.children_before split child member

end

end Facts

end PostOrder
