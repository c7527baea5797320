import CxxpyTree.ParserRun

/-! The parser accepts its grammar: a whole run over a list of tokens. -/

namespace CxxpyTree

open Machine

variable {σ : Type} {next : TokenSource σ}

/-- A run of `Parser::parse` that returns has eaten the leaves of its tree up to EOS. -/
theorem parse_sound {size : σ → Nat} (shrinks : Shrinks next size) (fuel : Nat) {s : ParserState σ}
    (ctxt : s.argCtxt = false) (enough : 2 * size s.src + 1 ≤ fuel) :
    wp (Parser.parse next fuel)
      (fun tree s' => (∃ first, next false s.src = .ok first ∧ Reads next first tree.leaves s'.view) ∧
        s'.tok.type = .eos ∧ s'.argCtxt = false ∧ tree.leaves.length ≤ size s.src)
      (fun stop _ => stop ≠ .outOfFuel) s := by
  refine wp_bind.mpr (wp_nextToken ?_ ?_)
  · intro tok src step
    rw [ctxt] at step
    have less := shrinks.step step
    have start : 2 * remaining size (tok, src) + 1 ≤ fuel := by
      simp only [remaining]
      omega
    refine wp_bind.mpr (wp_bind.mpr ((parseTreeNode_sound shrinks fuel { s with tok, src } ctxt start).mono ?_
      fun _ _ stopped => stopped))
    intro root s₁ eats
    rw [Parser.newTree, wp_newNode, wp_bind]
    refine wp_checkToken ?_ (by simp)
    intro last
    refine ⟨⟨_, step, eats.reads⟩, last, eats.ctxt, ?_⟩
    have used := eats.used
    simp only [ParserState.view, remaining] at used
    exact (Nat.le_add_left _ _).trans (used.trans less)
  · rintro stop step rfl
    exact shrinks.fueled step

/-- From a source that presents the leaves of a tree and then EOS, the run returns the tree. -/
theorem parse_builds (fuel : Nat) {s : ParserState σ} {tree : Tree} {first last : Token × σ}
    (ctxt : s.argCtxt = false) (start : next false s.src = .ok first) (reads : Reads next first tree.leaves last)
    (ends : last.1.type = .eos) (enough : 2 * tree.leaves.length + 1 ≤ fuel) :
    Builds (Parser.parse next fuel) tree tree.nodes s last := by
  refine wp_bind.mpr (wp_nextToken ?_ ?_)
  · intro tok src step
    rw [ctxt, start] at step
    cases step
    refine wp_bind.mpr ((parseTreeNode_builds tree.root fuel { s with tok, src } last ctxt reads enough).bind ?_)
    intro s₁ view₁ ctxt₁ pool₁
    rw [Parser.newTree, wp_newNode, wp_bind]
    subst view₁
    refine wp_checkToken ?_ ?_
    · intro _
      exact ⟨rfl, rfl, ctxt₁, by simp [pool₁, Tree.nodes]⟩
    · exact fun other => other ends
  · intro stop step
    rw [ctxt, start] at step
    cases step

theorem parse_fueled {size : σ → Nat} (shrinks : Shrinks next size) {fuel : Nat} {src : σ}
    (enough : 2 * size src + 1 ≤ fuel) : Parser.result (Parser.parse next fuel { src }) ≠ .error .outOfFuel := by
  have run := parse_sound shrinks fuel (s := { src }) rfl enough
  cases outcome : Parser.parse next fuel { src } with
  | ok result s' => exact nofun
  | error stop s' =>
    intro stopped
    cases stopped
    exact run.of_error outcome rfl

/-- A run that returns leaves the nodes of its tree in the pool, in the order of their listing. -/
theorem parse_pool {size : σ → Nat} (shrinks : Shrinks next size) {fuel : Nat} {s s' : ParserState σ} {tree : Tree}
    (ctxt : s.argCtxt = false) (enough : 2 * size s.src + 1 ≤ fuel)
    (outcome : Parser.parse next fuel s = .ok tree s') : s'.pool = s.pool ++ tree.nodes := by
  obtain ⟨⟨first, step, reads⟩, isEos, -, used⟩ := (parse_sound shrinks fuel ctxt enough).of_ok outcome
  have builds := parse_builds fuel ctxt step reads isEos (by omega)
  obtain ⟨-, -, -, pool⟩ := builds.of_ok outcome
  exact pool

theorem listSource_shrinks : Shrinks listSource List.length where
  step := by
    intro ctxt src tok src' step
    cases src with
    | nil => cases step
    | cons head tail =>
      cases step
      simp only [List.length_cons]
      split <;> omega
  fueled := by
    intro ctxt src
    cases src <;> simp [listSource]

/-- Reading from a list splits it at the token that is current in the end. -/
theorem reads_listSource_iff {leaves : List Leaf} {tok last : Token} {toks rest : List Token} :
    Reads listSource (tok, toks) leaves (last, rest) ↔
      ∃ eaten, tok :: toks = eaten ++ last :: rest ∧ Fits leaves eaten := by
  induction leaves generalizing tok toks with
  | nil =>
    constructor
    · intro reads
      cases reads
      exact ⟨[], rfl, .nil⟩
    · rintro ⟨eaten, same, fits⟩
      rw [fits_nil.mp fits] at same
      cases same
      exact .nil
  | cons leaf leaves ih =>
    constructor
    · intro reads
      cases reads with
      | cons fits step reads =>
        cases toks with
        | nil => cases step
        | cons head tail =>
          cases step
          obtain ⟨eaten, same, all⟩ := ih.mp reads
          exact ⟨tok :: eaten, by rw [same]; rfl, .cons fits all⟩
    · rintro ⟨eaten, same, fits⟩
      obtain ⟨first, more, here, later, rfl⟩ := List.forall₂_cons_left_iff.mp fits
      obtain ⟨rfl, tail⟩ := List.cons.inj same
      cases toks with
      | nil => cases more <;> cases tail
      | cons head tail' => exact .cons here rfl (ih.mpr ⟨more, tail, later⟩)

section Tokens
variable {toks : List Token} {eos : Token}

/-- A list of terminals and EOS: the only way to stop at an EOS is to have eaten the terminals. -/
theorem split_at_eos {eaten rest : List Token} {last : Token}
    (inner : ∀ tok ∈ toks, tok.type ≠ .eos) (ends : last.type = .eos)
    (same : toks ++ [eos] = eaten ++ last :: rest) : eaten = toks := by
  rcases List.append_eq_append_iff.mp same with ⟨more, rfl, tail⟩ | ⟨more, rfl, tail⟩
  · cases more with
    | nil => simp
    | cons head more => cases more <;> cases tail
  · cases more with
    | nil => simp
    | cons head more =>
      cases tail
      exact absurd ends (inner last (by simp))

theorem first_token (toks : List Token) (eos : Token) :
    ∃ tok src, listSource false (toks ++ [eos]) = .ok (tok, src) ∧ toks ++ [eos] = tok :: src := by
  cases toks with
  | nil => exact ⟨eos, [], rfl, rfl⟩
  | cons tok toks => exact ⟨tok, toks ++ [eos], rfl, rfl⟩

/-- The run over tokens that fit the leaves of a tree returns the tree. -/
theorem parseTokens_of_fits {tree : Tree} (ends : eos.type = .eos) (fits : Fits tree.leaves toks) :
    parseTokens (toks ++ [eos]) = .ok tree := by
  obtain ⟨tok, src, step, shape⟩ := first_token toks eos
  have reads : Reads listSource (tok, src) tree.leaves (eos, []) := reads_listSource_iff.mpr ⟨toks, shape.symm, fits⟩
  have enough : 2 * tree.leaves.length + 1 ≤ 2 * (toks ++ [eos]).length + 8 := by
    rw [fits.length_eq, List.length_append]
    omega
  obtain ⟨result, s', outcome, rfl, -⟩ := wp_false_iff.mp
    (parse_builds _ (s := { src := toks ++ [eos] }) rfl step reads ends enough)
  rw [parseTokens, outcome]
  rfl

theorem parseTokens_sentence (ends : eos.type = .eos) (sentence : Sentence .tree toks) (range : NumsInRange toks) :
    ∃ tree, parseTokens (toks ++ [eos]) = .ok tree := by
  obtain ⟨tree, fits⟩ := (sentence_iff_fits toks).mp ⟨sentence, range⟩
  exact ⟨tree, parseTokens_of_fits ends fits⟩

theorem parseTokens_eq_ok_iff (terminals : ∀ tok ∈ toks, tok.type ≠ .bos ∧ tok.type ≠ .eos) (ends : eos.type = .eos)
    (tree : Tree) : parseTokens (toks ++ [eos]) = .ok tree ↔ Fits tree.leaves toks := by
  obtain ⟨tok, src, step, shape⟩ := first_token toks eos
  constructor
  · intro accepted
    have run := parse_sound listSource_shrinks (2 * (toks ++ [eos]).length + 8)
      (s := { src := toks ++ [eos] }) rfl (by simp only; omega)
    rw [parseTokens] at accepted
    cases outcome : Parser.parse listSource (2 * (toks ++ [eos]).length + 8) { src := toks ++ [eos] } with
    | error stop s' => rw [outcome] at accepted; cases accepted
    | ok result s' =>
      rw [outcome] at accepted
      cases accepted
      obtain ⟨⟨first, step', reads⟩, last, -⟩ := run.of_ok outcome
      rw [show listSource false (toks ++ [eos]) = .ok first from step'] at step
      cases step
      obtain ⟨eaten, same, fits⟩ := reads_listSource_iff.mp reads
      rw [← shape] at same
      rwa [split_at_eos (fun tok member => (terminals tok member).2) last same] at fits
  · exact parseTokens_of_fits ends

theorem parseTokens_fueled (toks : List Token) : parseTokens toks ≠ .error .outOfFuel :=
  parse_fueled listSource_shrinks (by omega)

/-- On terminals that end with EOS the parser comes to an end, accepts the sentences of the
grammar whose numbers are in range, and returns the only tree they are read from. -/
theorem parseTokens_correct (terminals : ∀ tok ∈ toks, tok.type ≠ .bos ∧ tok.type ≠ .eos) (ends : eos.type = .eos) :
    parseTokens (toks ++ [eos]) ≠ .error .outOfFuel ∧
    ((∃ tree, parseTokens (toks ++ [eos]) = .ok tree) ↔ Sentence .tree toks ∧ NumsInRange toks) ∧
    (∀ tree, parseTokens (toks ++ [eos]) = .ok tree ↔ Fits tree.leaves toks) ∧
    (∀ tree other : Tree, Fits tree.leaves toks → Fits other.leaves toks → tree = other) := by
  have accepts := parseTokens_eq_ok_iff terminals ends
  refine ⟨parseTokens_fueled _, ?_, accepts, ?_⟩
  · rw [sentence_iff_fits]
    exact exists_congr accepts
  · intro tree other fits fits'
    exact Except.ok.inj (((accepts tree).mpr fits).symm.trans ((accepts other).mpr fits'))

end Tokens

/-- The tokens of `C(.b=list<B>[[7]=B('x')])`. -/
theorem parseTokens_correct_list :
    parseTokens ([{ type := .ident, lex := ['C'] }, { type := .openParen, lex := ['('] }, { type := .dot, lex := ['.'] },
      { type := .name, lex := ['b'] }, { type := .equal, lex := ['='] }, { type := .kwList, lex := "list".toList },
      { type := .openAngbrk, lex := ['<'] }, { type := .ident, lex := ['B'] }, { type := .closeAngbrk, lex := ['>'] },
      { type := .openSqbrk, lex := ['['] }, { type := .openSqbrk, lex := ['['] }, { type := .num, lex := ['7'] },
      { type := .closeSqbrk, lex := [']'] }, { type := .equal, lex := ['='] }, { type := .ident, lex := ['B'] },
      { type := .openParen, lex := ['('] }, { type := .str, lex := ['x'] }, { type := .closeParen, lex := [')'] },
      { type := .closeSqbrk, lex := [']'] }, { type := .closeParen, lex := [')'] }] ++ [{ type := .eos }]) =
    .ok ⟨.mk ⟨['C']⟩ (.listArgs
      [.mk ⟨['b']⟩ (.listValue (.mk ⟨['B']⟩ [.mk ⟨7⟩ (.mk ⟨['B']⟩ (.literalArgs ⟨['x']⟩))]))])⟩ := by
  have index : Leaf.Fits (.index 7) { type := .num, lex := ['7'] } := ⟨rfl, by decide, rfl⟩
  refine ((parseTokens_correct (by decide) rfl).2.2.1 _).mpr (.cons ⟨rfl, rfl⟩ (.cons rfl (.cons rfl ?_)))
  refine .cons ⟨rfl, rfl⟩ (.cons rfl (.cons rfl (.cons rfl (.cons ⟨rfl, rfl⟩ (.cons rfl (.cons rfl ?_))))))
  refine .cons rfl (.cons index (.cons rfl (.cons rfl ?_)))
  exact .cons ⟨rfl, rfl⟩ (.cons rfl (.cons ⟨rfl, rfl⟩ (.cons rfl (.cons rfl (.cons rfl .nil)))))

end CxxpyTree
