import CxxpyTree.SourceRoundTrip
import Mathlib.Data.List.Chain

/-! What may stand before a literal in a text that parses. -/

namespace CxxpyTree

/-- A literal is the only argument of a node or the value of a named one. -/
def Follows (prev next : Leaf) : Prop :=
  next.type ≠ .eos ∧ (next.type = .str → prev.type = .openParen ∨ prev.type = .equal)

/-- Leaves that may stand behind any other. -/
def FollowAny (leaves : List Leaf) : Prop := ∀ prev, List.IsChain Follows (prev :: leaves)

section Leaves
variable {leaf : Leaf} {leaves : List Leaf}

theorem FollowAny.cons (inner : leaf.type ≠ .eos) (other : leaf.type ≠ .str) (chain : List.IsChain Follows (leaf :: leaves)) :
    FollowAny (leaf :: leaves) :=
  fun _ => List.isChain_cons_cons.mpr ⟨⟨inner, fun same => absurd same other⟩, chain⟩

theorem FollowAny.literal {prev : Leaf} {str : CStr} (before : prev.type = .openParen ∨ prev.type = .equal)
    (rest : FollowAny leaves) : List.IsChain Follows (prev :: .lexeme .str str :: leaves) :=
  List.isChain_cons_cons.mpr ⟨⟨by simp [Leaf.type], fun _ => before⟩, rest _⟩

mutual

theorem TreeNode.followAny : (node : TreeNode) → ∀ {leaves}, FollowAny leaves → FollowAny (node.leaves ++ leaves)
  | .mk name args, leaves, rest => by
    have closed : FollowAny (.token .closeParen :: leaves) := .cons (by simp [Leaf.type]) (by simp [Leaf.type]) (rest _)
    simp only [TreeNode.leaves, NodeName.leaves, List.append_assoc, List.cons_append, List.nil_append]
    refine .cons (by simp [Leaf.type]) (by simp [Leaf.type]) (List.isChain_cons_cons.mpr ⟨by simp [Follows, Leaf.type], ?_⟩)
    exact args.follow closed
  termination_by structural node => node

theorem NodeArgs.follow : (args : NodeArgs) → ∀ {leaves}, FollowAny leaves →
    List.IsChain Follows (.token .openParen :: (args.leaves ++ leaves))
  | .listArgs list, _, rest => nodeArgList_followAny list rest _
  | .literalArgs _, _, rest => rest.literal (.inl rfl)
  termination_by structural args => args

theorem nodeArgList_followAny : (list : List NodeArg) → ∀ {leaves}, FollowAny leaves →
    FollowAny (nodeArgListLeaves list ++ leaves)
  | [], _, rest => rest
  | arg :: list, _, rest => by
    rw [nodeArgListLeaves, List.append_assoc]
    exact arg.followAny (nodeArgList_followAny list rest)
  termination_by structural list => list

theorem NodeArg.followAny : (arg : NodeArg) → ∀ {leaves}, FollowAny leaves → FollowAny (arg.leaves ++ leaves)
  | .mk name value, leaves, rest => by
    simp only [NodeArg.leaves, ArgName.leaves, List.cons_append, List.nil_append]
    refine .cons (by simp [Leaf.type]) (by simp [Leaf.type]) (List.isChain_cons_cons.mpr ⟨by simp [Follows, Leaf.type], ?_⟩)
    exact List.isChain_cons_cons.mpr ⟨by simp [Follows, Leaf.type], value.follow rest⟩
  termination_by structural arg => arg

theorem ArgValue.follow : (value : ArgValue) → ∀ {leaves}, FollowAny leaves →
    List.IsChain Follows (.token .equal :: (value.leaves ++ leaves))
  | .nodeValue node, _, rest => node.followAny rest _
  | .listValue list, _, rest => list.followAny rest _
  | .literalValue _, _, rest => rest.literal (.inr rfl)
  termination_by structural value => value

theorem NodeList.followAny : (list : NodeList) → ∀ {leaves}, FollowAny leaves → FollowAny (list.leaves ++ leaves)
  | .mk base elems, leaves, rest => by
    have closed : FollowAny (.token .closeSqbrk :: leaves) := .cons (by simp [Leaf.type]) (by simp [Leaf.type]) (rest _)
    have listed := listElems_followAny elems closed
    simp only [NodeList.leaves, NodeName.leaves, List.append_assoc, List.cons_append, List.nil_append]
    intro prev
    simp only [List.isChain_cons_cons]
    exact ⟨by simp [Follows, Leaf.type], by simp [Follows, Leaf.type], by simp [Follows, Leaf.type],
      by simp [Follows, Leaf.type], by simp [Follows, Leaf.type], listed _⟩
  termination_by structural list => list

theorem listElems_followAny : (elems : List ListElem) → ∀ {leaves}, FollowAny leaves →
    FollowAny (listElemsLeaves elems ++ leaves)
  | [], _, rest => rest
  | elem :: elems, _, rest => by
    rw [listElemsLeaves, List.append_assoc]
    exact elem.followAny (listElems_followAny elems rest)
  termination_by structural elems => elems

theorem ListElem.followAny : (elem : ListElem) → ∀ {leaves}, FollowAny leaves → FollowAny (elem.leaves ++ leaves)
  | .mk index node, leaves, rest => by
    simp only [ListElem.leaves, List.cons_append, List.nil_append]
    intro prev
    simp only [List.isChain_cons_cons]
    exact ⟨by simp [Follows, Leaf.type], by simp [Follows, Leaf.type], by simp [Follows, Leaf.type],
      by simp [Follows, Leaf.type], node.followAny rest _⟩
  termination_by structural elem => elem

end

end Leaves

theorem inner_of_follow : ∀ {leaves : List Leaf} {prev : Leaf}, List.IsChain Follows (prev :: leaves) →
    ∀ leaf ∈ leaves, leaf.type ≠ .eos
  | [], _, _ => by simp
  | leaf :: leaves, _, chain => by
    obtain ⟨first, rest⟩ := List.isChain_cons_cons.mp chain
    exact List.forall_mem_cons.mpr ⟨first.1, inner_of_follow rest⟩

theorem Tree.follow (tree : Tree) (prev : Leaf) : List.IsChain Follows (prev :: tree.leaves) := by
  have empty : FollowAny [] := fun _ => .singleton _
  have whole := tree.root.followAny empty prev
  rwa [List.append_nil] at whole

theorem Item.Spelled.inner {item : Item} {w : List Char} (spelled : item.Spelled w) (argCtxt : Bool) :
    item.type argCtxt ≠ .eos := by
  cases spelled with
  | punct char =>
    unfold ischartoken at char
    repeat' split at char
    all_goals cases char
    all_goals simp [Item.type]
  | word _ _ =>
    simp only [Item.type, wordType]
    split
    · simp
    · split <;> simp
  | literal => simp [Item.type]
  | number => simp [Item.type]

theorem Shows.inner {argCtxt : Bool} {leaves : List Leaf} {text : List Char} (shown : Shows argCtxt leaves text) :
    ∀ leaf ∈ leaves, leaf.type ≠ .eos := by
  induction shown with
  | done => simp
  | space _ _ ih => exact ih
  | leaf spelled _ _ fits _ ih =>
    refine List.forall_mem_cons.mpr ⟨?_, ih⟩
    rw [← (fits {}).type_eq]
    exact spelled.inner _

/-- Two ways to read up to EOS read the same tokens. -/
theorem Reads.same_tokens {σ : Type} {next : TokenSource σ} {first last last' : Token × σ} {a b : List Leaf}
    (left : Reads next first a last) (right : Reads next first b last') (ends : last.1.type = .eos)
    (ends' : last'.1.type = .eos) (inner : ∀ leaf ∈ a, leaf.type ≠ .eos) (inner' : ∀ leaf ∈ b, leaf.type ≠ .eos) :
    ∃ toks, Fits a toks ∧ Fits b toks := by
  induction left generalizing b with
  | nil =>
    cases right with
    | nil => exact ⟨[], .nil, .nil⟩
    | cons fits _ _ => exact absurd (fits.type_eq.symm.trans ends) (inner' _ (by simp))
  | @cons tok _ _ _ _ _ fits step _ ih =>
    cases right with
    | nil => exact absurd (fits.type_eq.symm.trans ends') (inner _ (by simp))
    | cons fits' step' rest' =>
      rw [step] at step'
      cases step'
      obtain ⟨toks, all, all'⟩ := ih rest' ends (fun leaf member => inner leaf (by simp [member])) fun leaf member =>
        inner' leaf (by simp [member])
      exact ⟨tok :: toks, .cons fits all, .cons fits' all'⟩

theorem Fits.types {leaves : List Leaf} {toks : List Token} (fits : Fits leaves toks) :
    toks.map Token.type = leaves.map Leaf.type := by
  induction fits with
  | nil => rfl
  | cons first _ ih => rw [List.map_cons, List.map_cons, first.type_eq, ih]

theorem Fits.exists_token {leaf : Leaf} {leaves : List Leaf} {toks : List Token} (fits : Fits leaves toks)
    (member : leaf ∈ leaves) : ∃ tok ∈ toks, leaf.Fits tok := by
  induction fits with
  | nil => cases member
  | cons first _ ih =>
    cases member with
    | head => exact ⟨_, List.mem_cons_self, first⟩
    | tail _ later =>
      obtain ⟨tok, present, holds⟩ := ih later
      exact ⟨tok, List.mem_cons_of_mem _ present, holds⟩

theorem isChain_of_types {a b : List Leaf} (same : a.map Leaf.type = b.map Leaf.type) (chain : List.IsChain Follows a) :
    List.IsChain Follows b := by
  have types : ∀ leaves : List Leaf, List.IsChain (fun prev next : TokenType =>
      next ≠ .eos ∧ (next = .str → prev = .openParen ∨ prev = .equal)) (leaves.map Leaf.type) ↔
      List.IsChain Follows leaves := fun leaves => List.isChain_map Leaf.type
  exact (types b).mp (same ▸ (types a).mpr chain)

/-- In a line that parses every literal stands behind an opening parenthesis or an equal sign. -/
theorem follow_of_parseText {type : InputType} {leaves : List Leaf} {text : List Char} {tree : Tree}
    (shown : Shows false leaves text) (parsed : parseText type (text ++ [newline]) = .ok tree) :
    List.IsChain Follows leaves := by
  obtain ⟨first, last, step, reads, ends⟩ := reads_of_parseText parsed
  obtain ⟨first', last', step', reads', ends'⟩ := shown.reads {}
  rw [init_line type shown.nul_free, step'] at step
  cases step
  have chain := tree.follow (.token .equal)
  obtain ⟨toks, fits, fits'⟩ := reads.same_tokens reads' ends ends' (inner_of_follow chain) shown.inner
  exact isChain_of_types (fits.types.symm.trans fits'.types) chain.tail

end CxxpyTree
