import CxxpyTree.ParserCorrect

/-! Beginnings of the words of the grammar, and how each of them goes on to a whole word. -/

namespace CxxpyTree

open Ebnf Machine

/-- A number must be a numeral of a value that fits `list_elem_idx_t`. -/
def Token.InRange (tok : Token) : Prop := tok.type = .num → IsNumeral (cstr tok.lex) ∧ decimal (cstr tok.lex) ≤ 255

theorem zero_inRange {pos : Pos} {type : TokenType} : Token.InRange { pos, type, lex := ['0'] } := by
  intro _
  have numeral : IsNumeral (cstr ['0']) := ⟨nofun, List.forall_mem_singleton.mpr rfl⟩
  have small : decimal (cstr ['0']) ≤ 255 := by decide
  exact ⟨numeral, small⟩

/-- A sentence with its EOS. -/
def Complete (toks : List Token) : Prop :=
  ∃ words eos, toks = words ++ [eos] ∧ eos.type = .eos ∧ Sentence .tree words ∧ NumsInRange words

/-- The tokens are a prefix of a sentence with its EOS. -/
def Viable (toks : List Token) : Prop := ∃ more, Complete (toks ++ more)

/-- The tokens begin a word of the right-hand side. -/
def Begins (rhs : TreeRhs) (toks : List Token) : Prop := ∃ more, Derived rhs (toks ++ more)

namespace Derived
variable {rhs rhs' : TreeRhs} {toks : List Token}

theorem tok {tok : Token} (range : tok.InRange) : Derived (.term tok.type) [tok] := by
  refine ⟨.term tok, ?_⟩
  intro other member
  rw [List.mem_singleton.mp member]
  exact range

theorem seq_parts (word : Derived (.seq rhs rhs') toks) : ∃ u v, toks = u ++ v ∧ Derived rhs u ∧ Derived rhs' v := by
  obtain ⟨derives, range⟩ := word
  cases derives with
  | seq first second => exact ⟨_, _, rfl, ⟨first, range.left⟩, ⟨second, range.right⟩⟩

theorem star_of_seq (word : Derived (.seq rhs (.star rhs)) toks) : Derived (.star rhs) toks := by
  obtain ⟨u, v, rfl, head, tail⟩ := word.seq_parts
  exact .starCons head tail

private theorem exists_term (type : TokenType) : ∃ toks, Derived (.term type) toks :=
  ⟨[{ type, lex := ['0'] }], @tok { type, lex := ['0'] } zero_inRange⟩

private theorem exists_symbol (symbol : Symbol) : ∃ toks, Derived (.ref symbol) toks := by
  obtain ⟨ident, isIdent⟩ := exists_term .ident
  obtain ⟨opening, isOpen⟩ := exists_term .openParen
  obtain ⟨closing, isClose⟩ := exists_term .closeParen
  have args : Derived (.ref .nodeArgs) [] := .ref (.altLeft .starNil)
  have node : Derived (.ref .treeNode) _ := .ref (.seq (.ref isIdent) (.seq isOpen (.seq args isClose)))
  obtain ⟨name, isName⟩ := exists_term .name
  obtain ⟨str, isStr⟩ := exists_term .str
  obtain ⟨dot, isDot⟩ := exists_term .dot
  obtain ⟨equal, isEqual⟩ := exists_term .equal
  obtain ⟨first, isFirst⟩ := exists_term .openSqbrk
  obtain ⟨num, isNum⟩ := exists_term .num
  obtain ⟨last, isLast⟩ := exists_term .closeSqbrk
  cases symbol with
  | tree => exact ⟨_, .ref node⟩
  | treeNode => exact ⟨_, node⟩
  | nodeName => exact ⟨_, .ref isIdent⟩
  | nodeArgs => exact ⟨_, args⟩
  | nodeArg => exact ⟨_, .ref (.seq isDot (.seq (.ref isName) (.seq isEqual (.ref (.altLeft node)))))⟩
  | argName => exact ⟨_, .ref isName⟩
  | argValue => exact ⟨_, .ref (.altLeft node)⟩
  | listElem => exact ⟨_, .ref (.seq isFirst (.seq isNum (.seq isLast (.seq isEqual node))))⟩
  | literal => exact ⟨_, .ref isStr⟩

/-- Whatever was begun can be finished. -/
theorem exists_word (rhs : TreeRhs) : ∃ toks, Derived rhs toks := by
  induction rhs with
  | term type => exact exists_term type
  | ref symbol => exact exists_symbol symbol
  | seq first second firstWord secondWord =>
    obtain ⟨u, head⟩ := firstWord
    obtain ⟨v, tail⟩ := secondWord
    exact ⟨u ++ v, head.seq tail⟩
  | alt left right leftWord _ =>
    obtain ⟨u, word⟩ := leftWord
    exact ⟨u, word.altLeft⟩
  | star body _ => exact ⟨[], .starNil⟩

end Derived

namespace Begins
variable {rhs rhs' : TreeRhs} {u v : List Token}

theorem of_derived (word : Derived rhs u) : Begins rhs u := ⟨[], by rwa [List.append_nil]⟩

theorem nil : Begins rhs [] := Derived.exists_word rhs

theorem mono (covers : ∀ {w}, Derived rhs w → Derived rhs' w) (begun : Begins rhs u) : Begins rhs' u := by
  obtain ⟨more, word⟩ := begun
  exact ⟨more, covers word⟩

theorem left (begun : Begins rhs u) : Begins (.seq rhs rhs') u := by
  obtain ⟨more, word⟩ := begun
  obtain ⟨v, tail⟩ := Derived.exists_word rhs'
  refine ⟨more ++ v, ?_⟩
  rw [← List.append_assoc]
  exact word.seq tail

theorem right (head : Derived rhs u) (begun : Begins rhs' v) : Begins (.seq rhs rhs') (u ++ v) := by
  obtain ⟨more, word⟩ := begun
  refine ⟨more, ?_⟩
  rw [List.append_assoc]
  exact head.seq word

/-- A beginning of a sentence, and what comes after the whole sentence. -/
theorem viable (begun : Begins (.ref .tree) u) : Viable u := by
  obtain ⟨more, derives, range⟩ := begun
  exact ⟨more ++ [{ type := .eos }], u ++ more, _, (List.append_assoc ..).symm, rfl, derives, range⟩

end Begins

namespace Viable
variable {u v : List Token}

theorem of_append (viable : Viable (u ++ v)) : Viable u := by
  obtain ⟨more, complete⟩ := viable
  exact ⟨v ++ more, List.append_assoc .. ▸ complete⟩

/-- A number that is out of range is in no sentence. -/
theorem inRange {tok : Token} (viable : Viable (u ++ [tok])) : tok.InRange := by
  obtain ⟨more, words, eos, split, ends, -, range⟩ := viable
  intro isNum
  have member : tok ∈ words ++ [eos] := by
    rw [← split]
    simp
  rcases List.mem_append.mp member with inner | last
  · exact range tok inner isNum
  · rw [List.mem_singleton.mp last, ends] at isNum
    cases isNum

end Viable

end CxxpyTree
