import Mathlib.Tactic.Common

/-! Texts that a separator cuts into lines: the table of the places where the lines begin, and the
line around a place. -/

namespace Lines

variable {α : Type} [DecidableEq α] (sep : α)

/-- The places behind the separators of a text that stands at `ptr`. -/
def behindSeps : (ptr : Nat) → List α → List Nat
  | _, [] => []
  | ptr, c :: rest => if c = sep then (ptr + 1) :: behindSeps (ptr + 1) rest else behindSeps (ptr + 1) rest

/-- The places where the lines of a text begin. -/
def starts (text : List α) : List Nat := 0 :: behindSeps sep 0 text

/-- A place in a text, between `left` and `right` on its line, with the other lines before and behind. -/
structure Around (head left right tail : List α) : Prop where
  head : head = [] ∨ ∃ init, head = init ++ [sep]
  left : sep ∉ left
  right : sep ∉ right
  tail : tail = [] ∨ ∃ more, tail = sep :: more

section Table
variable {sep} {text a b : List α} {ptr : Nat}

theorem behindSeps_append : behindSeps sep ptr (a ++ b) = behindSeps sep ptr a ++ behindSeps sep (ptr + a.length) b := by
  induction a generalizing ptr with
  | nil => rfl
  | cons c a ih =>
    have onward : ptr + 1 + a.length = ptr + (c :: a).length := by rw [List.length_cons]; omega
    by_cases isSep : c = sep <;> simp [behindSeps, isSep, ih, onward]

theorem behindSeps_eq_nil (inside : sep ∉ text) : behindSeps sep ptr text = [] := by
  induction text generalizing ptr with
  | nil => rfl
  | cons c text ih =>
    rw [List.mem_cons, not_or] at inside
    rw [behindSeps, if_neg (Ne.symm inside.1), ih inside.2]

theorem length_behindSeps : (behindSeps sep ptr text).length = text.count sep := by
  induction text generalizing ptr with
  | nil => rfl
  | cons c text ih => by_cases isSep : c = sep <;> simp [behindSeps, isSep, ih]

theorem length_starts : (starts sep text).length = text.count sep + 1 := by
  rw [starts, List.length_cons, length_behindSeps]

/-- The lines that are ended, and those from the place on. -/
theorem starts_append : starts sep (a ++ b) = starts sep a ++ behindSeps sep a.length b := by
  rw [starts, starts, behindSeps_append, Nat.zero_add, List.cons_append]

end Table

section Around
variable {sep} {before rest head left right tail : List α}

private theorem exists_cut (sep : α) (text : List α) : ∃ line tail, text = line ++ tail ∧ sep ∉ line ∧
    (tail = [] ∨ ∃ more, tail = sep :: more) := by
  induction text with
  | nil => exact ⟨[], [], rfl, by simp, .inl rfl⟩
  | cons c text ih =>
    by_cases isSep : c = sep
    · exact ⟨[], c :: text, rfl, by simp, .inr ⟨text, by rw [isSep]⟩⟩
    · obtain ⟨line, tail, rfl, inside, ends⟩ := ih
      refine ⟨c :: line, tail, rfl, ?_, ends⟩
      rw [List.mem_cons, not_or]
      exact ⟨Ne.symm isSep, inside⟩

/-- Every place of a text is between two parts of a line. -/
theorem exists_around (sep : α) (before rest : List α) : ∃ head left right tail, Around sep head left right tail ∧
    before = head ++ left ∧ rest = right ++ tail := by
  obtain ⟨right, tail, rfl, inside, ends⟩ := exists_cut sep rest
  obtain ⟨left, head, reversed, inside', begins⟩ := exists_cut sep before.reverse
  refine ⟨head.reverse, left.reverse, right, tail, ⟨?_, by simpa using inside', inside, ends⟩, ?_, rfl⟩
  · rcases begins with rfl | ⟨more, rfl⟩
    · exact .inl rfl
    · exact .inr ⟨more.reverse, by simp⟩
  · rw [← List.reverse_append, ← reversed, List.reverse_reverse]

variable (around : Around sep head left right tail)
include around

omit [DecidableEq α] in
theorem Around.no_sep : sep ∉ left ++ right := by
  rw [List.mem_append, not_or]
  exact ⟨around.left, around.right⟩

/-- The separators are those of the other lines. -/
theorem Around.count : (head ++ left ++ (right ++ tail)).count sep = head.count sep + tail.count sep := by
  rw [List.append_assoc, ← List.append_assoc left, List.count_append, List.count_append,
    List.count_eq_zero.mpr around.no_sep, Nat.zero_add]

/-- The entry of its line in the table. -/
theorem Around.start : (starts sep (head ++ left ++ (right ++ tail)))[head.count sep]? = some head.length := by
  have entry : (starts sep head)[head.count sep]? = some head.length := by
    rcases around.head with rfl | ⟨init, rfl⟩
    · rfl
    · rw [starts, behindSeps_append, ← List.cons_append, List.count_append, List.count_singleton_self,
        List.getElem?_append_right (by simp [length_behindSeps])]
      simp [behindSeps, length_behindSeps]
  have inside : head.count sep < (starts sep head).length := by rw [length_starts]; omega
  rw [List.append_assoc, starts_append, List.getElem?_append_left inside]
  exact entry

/-- The entry behind it, which the last line has not. -/
theorem Around.next : (starts sep (head ++ left ++ (right ++ tail)))[head.count sep + 1]? =
    if tail = [] then none else some (head.length + left.length + right.length + 1) := by
  have none_inside : behindSeps sep head.length (left ++ right) = [] := behindSeps_eq_nil around.no_sep
  have split : head ++ left ++ (right ++ tail) = head ++ ((left ++ right) ++ tail) := by simp
  rw [split, starts_append, behindSeps_append, none_inside, List.nil_append,
    List.getElem?_append_right (Nat.le_of_eq length_starts), length_starts, Nat.sub_self]
  rcases around.tail with rfl | ⟨more, rfl⟩
  · rfl
  · simp [behindSeps, Nat.add_assoc]

theorem Around.line : ((head ++ left ++ (right ++ tail)).splitOn sep)[head.count sep]? = some (left ++ right) := by
  have inside := around.no_sep
  have first : ((left ++ right ++ tail).splitOn sep)[0]? = some (left ++ right) := by
    rcases around.tail with rfl | ⟨more, rfl⟩
    · rw [List.append_nil, List.splitOn_eq_singleton inside]
      rfl
    · rw [List.splitOn_append_cons_self_of_not_mem inside]
      rfl
  have lines : ∀ text : List α, (text.splitOn sep).length = text.count sep + 1 := by
    intro text
    induction text with
    | nil => rfl
    | cons c text ih =>
      by_cases isSep : c = sep <;> simp [List.splitOn_cons_eq_if_modifyHead, isSep, ih]
  rw [List.append_assoc, ← List.append_assoc left]
  rcases around.head with rfl | ⟨init, rfl⟩
  · exact first
  · have count : (init ++ [sep]).count sep = (init.splitOn sep).length := by
      rw [lines, List.count_append, List.count_singleton_self]
    rw [count, List.append_assoc, List.singleton_append, List.splitOn_append_cons_self,
      List.getElem?_append_right (Nat.le_refl _), Nat.sub_self]
    exact first

end Around

end Lines
