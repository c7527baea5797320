import Mathlib.Tactic.Common

/-! Context-free grammars in extended Backus-Naur form, over words whose letters are sorted
into the terminals by a function `kind`. -/

namespace Ebnf

/-- The right-hand side of a rule over terminals `τ` and nonterminals `ν`. -/
inductive Rhs (τ ν : Type) where
  | term (terminal : τ)
  | ref (name : ν)
  | seq (first second : Rhs τ ν)
  | alt (left right : Rhs τ ν)
  | star (body : Rhs τ ν)
  deriving DecidableEq, Repr

variable {α τ ν : Type} (kind : α → τ) (rules : ν → Rhs τ ν)

inductive Derives : Rhs τ ν → List α → Prop where
  | term (a : α) : Derives (.term (kind a)) [a]
  | ref {name w} (body : Derives (rules name) w) : Derives (.ref name) w
  | seq {a b u v} (first : Derives a u) (second : Derives b v) : Derives (.seq a b) (u ++ v)
  | altLeft {a b w} (left : Derives a w) : Derives (.alt a b) w
  | altRight {a b w} (right : Derives b w) : Derives (.alt a b) w
  | starNil {a} : Derives (.star a) []
  | starCons {a u v} (head : Derives a u) (tail : Derives (.star a) v) : Derives (.star a) (u ++ v)

/-- The words of a right-hand side when the words of every nonterminal are given. -/
def Matches (meaning : ν → List α → Prop) : Rhs τ ν → List α → Prop
  | .term terminal, w => ∃ a, kind a = terminal ∧ w = [a]
  | .ref name, w => meaning name w
  | .seq a b, w => ∃ u v, w = u ++ v ∧ Matches meaning a u ∧ Matches meaning b v
  | .alt a b, w => Matches meaning a w ∨ Matches meaning b w
  | .star a, w => ∃ words : List (List α), w = words.flatten ∧ ∀ u ∈ words, Matches meaning a u

/-- Every terminal of a right-hand side satisfies `P`. -/
def Rhs.All (P : τ → Prop) : Rhs τ ν → Prop
  | .term terminal => P terminal
  | .ref _ => True
  | .seq first second => first.All P ∧ second.All P
  | .alt left right => left.All P ∧ right.All P
  | .star body => body.All P

variable {kind rules}

/-- The letters of a derived word are of the kinds of the terminals. -/
theorem Derives.kind_of_mem {P : τ → Prop} (all : ∀ name, (rules name).All P) {rhs : Rhs τ ν} {w : List α}
    (derived : Derives kind rules rhs w) (here : rhs.All P) : ∀ a ∈ w, P (kind a) := by
  induction derived with
  | term a => exact List.forall_mem_singleton.mpr here
  | ref _ ih => exact ih (all _)
  | seq _ _ first second => exact List.forall_mem_append.mpr ⟨first here.1, second here.2⟩
  | altLeft _ ih => exact ih here.1
  | altRight _ ih => exact ih here.2
  | starNil => exact nofun
  | starCons _ _ head tail => exact List.forall_mem_append.mpr ⟨head here, tail here⟩

/-- A derivation sees the kinds of the letters only. -/
theorem Derives.congr_kind {rhs : Rhs τ ν} {w w' : List α} (derived : Derives kind rules rhs w)
    (same : w'.map kind = w.map kind) : Derives kind rules rhs w' := by
  induction derived generalizing w' with
  | term a =>
    obtain ⟨b, rfl, kind_eq⟩ := List.map_eq_singleton_iff.mp same
    exact kind_eq ▸ .term b
  | ref _ ih => exact .ref (ih same)
  | seq _ _ first second =>
    rw [List.map_append] at same
    obtain ⟨u, v, rfl, left, right⟩ := List.map_eq_append_iff.mp same
    exact .seq (first left) (second right)
  | altLeft _ ih => exact .altLeft (ih same)
  | altRight _ ih => exact .altRight (ih same)
  | starNil =>
    rw [List.map_eq_nil_iff.mp same]
    exact .starNil
  | starCons _ _ head tail =>
    rw [List.map_append] at same
    obtain ⟨u, v, rfl, left, right⟩ := List.map_eq_append_iff.mp same
    exact .starCons (head left) (tail right)

/-- Induction over derivations: a meaning closed under the rules holds of every derived word. -/
theorem Derives.matches {meaning : ν → List α → Prop}
    (closed : ∀ name w, Matches kind meaning (rules name) w → meaning name w) {rhs : Rhs τ ν} {w : List α}
    (derived : Derives kind rules rhs w) : Matches kind meaning rhs w := by
  induction derived with
  | term a => exact ⟨a, rfl, rfl⟩
  | ref _ body => exact closed _ _ body
  | seq _ _ first second => exact ⟨_, _, rfl, first, second⟩
  | altLeft _ left => exact .inl left
  | altRight _ right => exact .inr right
  | starNil => exact ⟨[], rfl, by simp⟩
  | starCons _ _ head tail =>
    obtain ⟨words, rfl, each⟩ := tail
    refine ⟨_ :: words, rfl, ?_⟩
    intro u member
    cases member with
    | head => exact head
    | tail _ later => exact each u later

end Ebnf
