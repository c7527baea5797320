import CxxpyTree.Lib.Ebnf
import CxxpyTree.ParseNum
import CxxpyTree.Token
import CxxpyTree.TreeAst
import Mathlib.Data.List.Forall2

/-! The grammar of tree/grammar.g++, and the terminals that each class of syntax tree stands for. -/

namespace CxxpyTree

open Ebnf

inductive Symbol where
  | tree
  | treeNode
  | nodeName
  | nodeArgs
  | nodeArg
  | argName
  | argValue
  | listElem
  | literal
  deriving DecidableEq, Repr

abbrev TreeRhs := Rhs TokenType Symbol

def grammar : Symbol → TreeRhs
  | .tree => .ref .treeNode
  | .treeNode => .seq (.ref .nodeName) (.seq (.term .openParen) (.seq (.ref .nodeArgs) (.term .closeParen)))
  | .nodeName => .term .ident
  | .nodeArgs => .alt (.star (.ref .nodeArg)) (.ref .literal)
  | .nodeArg => .seq (.term .dot) (.seq (.ref .argName) (.seq (.term .equal) (.ref .argValue)))
  | .argName => .term .name
  | .argValue =>
    .alt (.ref .treeNode)
      (.alt
        (.seq (.term .kwList) (.seq (.term .openAngbrk) (.seq (.ref .nodeName) (.seq (.term .closeAngbrk)
          (.seq (.term .openSqbrk) (.seq (.star (.ref .listElem)) (.term .closeSqbrk)))))))
        (.ref .literal))
  | .listElem =>
    .seq (.term .openSqbrk) (.seq (.term .num) (.seq (.term .closeSqbrk) (.seq (.term .equal) (.ref .treeNode))))
  | .literal => .term .str

def Sentence (symbol : Symbol) (toks : List Token) : Prop := Derives Token.type grammar (.ref symbol) toks

/-- Every NUM is a numeral of a value that fits `list_elem_idx_t`. -/
def NumsInRange (toks : List Token) : Prop :=
  ∀ tok ∈ toks, tok.type = .num → IsNumeral (cstr tok.lex) ∧ decimal (cstr tok.lex) ≤ 255

/-- What a terminal of a derivation contributes to the tree. -/
inductive Leaf where
  | token (type : TokenType)
  | lexeme (type : TokenType) (str : CStr)
  | index (idx : UInt8)
  deriving DecidableEq, Repr

namespace Leaf

def type : Leaf → TokenType
  | token type => type
  | lexeme type _ => type
  | index _ => .num

/-- The tokens that a leaf can be read from; an index may have leading zeros. -/
def Fits : Leaf → Token → Prop
  | token type, tok => tok.type = type
  | lexeme type str, tok => tok.type = type ∧ cstr tok.lex = str
  | index idx, tok => tok.type = .num ∧ IsNumeral (cstr tok.lex) ∧ decimal (cstr tok.lex) = idx.toNat

theorem Fits.type_eq {leaf : Leaf} {tok : Token} (fits : leaf.Fits tok) : tok.type = leaf.type := by
  cases leaf with
  | token => exact fits
  | lexeme => exact fits.1
  | index => exact fits.1

end Leaf

def NodeName.leaves (name : NodeName) : List Leaf := [.lexeme .ident name.ident]
def ArgName.leaves (name : ArgName) : List Leaf := [.lexeme .name name.str]
def Literal.leaves (literal : Literal) : List Leaf := [.lexeme .str literal.str]

/-! The terminals of the derivation of a tree, rule by rule. -/

mutual

def TreeNode.leaves : TreeNode → List Leaf
  | .mk name args => name.leaves ++ ([.token .openParen] ++ (args.leaves ++ [.token .closeParen]))
  termination_by structural node => node

def NodeArgs.leaves : NodeArgs → List Leaf
  | .listArgs list => nodeArgListLeaves list
  | .literalArgs literal => literal.leaves
  termination_by structural args => args

def nodeArgListLeaves : List NodeArg → List Leaf
  | [] => []
  | arg :: list => arg.leaves ++ nodeArgListLeaves list
  termination_by structural list => list

def NodeArg.leaves : NodeArg → List Leaf
  | .mk name value => [.token .dot] ++ (name.leaves ++ ([.token .equal] ++ value.leaves))
  termination_by structural arg => arg

def ArgValue.leaves : ArgValue → List Leaf
  | .nodeValue node => node.leaves
  | .listValue list => list.leaves
  | .literalValue literal => literal.leaves
  termination_by structural value => value

def NodeList.leaves : NodeList → List Leaf
  | .mk base elems =>
    [.token .kwList] ++ ([.token .openAngbrk] ++ (base.leaves ++ ([.token .closeAngbrk] ++
      ([.token .openSqbrk] ++ (listElemsLeaves elems ++ [.token .closeSqbrk])))))
  termination_by structural list => list

def listElemsLeaves : List ListElem → List Leaf
  | [] => []
  | elem :: elems => elem.leaves ++ listElemsLeaves elems
  termination_by structural elems => elems

def ListElem.leaves : ListElem → List Leaf
  | .mk index node =>
    [.token .openSqbrk] ++ ([.index index] ++ ([.token .closeSqbrk] ++ ([.token .equal] ++ node.leaves)))
  termination_by structural elem => elem

end

def Tree.leaves (tree : Tree) : List Leaf := tree.root.leaves

/-- `toks` is the sequence of tokens from which the rules build a tree with these leaves. -/
def Fits (leaves : List Leaf) (toks : List Token) : Prop := List.Forall₂ Leaf.Fits leaves toks

theorem fits_nil {toks : List Token} : Fits [] toks ↔ toks = [] := List.forall₂_nil_left_iff

theorem fits_singleton {leaf : Leaf} {toks : List Token} :
    Fits [leaf] toks ↔ ∃ tok, toks = [tok] ∧ leaf.Fits tok := by
  constructor
  · intro fits
    obtain ⟨tok, rest, first, last, rfl⟩ := List.forall₂_cons_left_iff.mp fits
    rw [List.forall₂_nil_left_iff] at last
    subst last
    exact ⟨tok, rfl, first⟩
  · rintro ⟨tok, rfl, first⟩
    exact .cons first .nil

theorem fits_append {a b : List Leaf} {toks : List Token} :
    Fits (a ++ b) toks ↔ ∃ u v, toks = u ++ v ∧ Fits a u ∧ Fits b v := by
  constructor
  · intro fits
    induction a generalizing toks with
    | nil => exact ⟨[], toks, rfl, .nil, fits⟩
    | cons leaf a ih =>
      obtain ⟨tok, rest, first, later, rfl⟩ := List.forall₂_cons_left_iff.mp fits
      obtain ⟨u, v, rfl, left, right⟩ := ih later
      exact ⟨tok :: u, v, rfl, .cons first left, right⟩
  · rintro ⟨u, v, rfl, left, right⟩
    exact List.rel_append left right

theorem Fits.append {a b : List Leaf} {u v : List Token} (left : Fits a u) (right : Fits b v) :
    Fits (a ++ b) (u ++ v) := List.rel_append left right

theorem fits_token {type : TokenType} {tok : Token} (same : tok.type = type) : Fits [.token type] [tok] :=
  .cons same .nil

namespace NumsInRange
variable {u v : List Token}

theorem left (range : NumsInRange (u ++ v)) : NumsInRange u := fun tok member => range tok (by simp [member])

theorem right (range : NumsInRange (u ++ v)) : NumsInRange v := fun tok member => range tok (by simp [member])

end NumsInRange

/-- `toks`, when its numbers are in range, is read from the leaves of some tree. -/
def HasTree (leaves : α → List Leaf) (toks : List Token) : Prop := NumsInRange toks → ∃ a, Fits (leaves a) toks

def symbolHasTree : Symbol → List Token → Prop
  | .tree => HasTree Tree.leaves
  | .treeNode => HasTree TreeNode.leaves
  | .nodeName => HasTree NodeName.leaves
  | .nodeArgs => HasTree NodeArgs.leaves
  | .nodeArg => HasTree NodeArg.leaves
  | .argName => HasTree ArgName.leaves
  | .argValue => HasTree ArgValue.leaves
  | .listElem => HasTree ListElem.leaves
  | .literal => HasTree Literal.leaves

private theorem hasTree_words {leaves : α → List Leaf} (all : List α → List Leaf) (nil : all [] = [])
    (cons : ∀ a list, all (a :: list) = leaves a ++ all list) {words : List (List Token)}
    (each : ∀ u ∈ words, HasTree leaves u) : HasTree all words.flatten := by
  intro range
  induction words with
  | nil => exact ⟨[], by rw [nil]; exact .nil⟩
  | cons u words ih =>
    obtain ⟨a, first⟩ := each u (by simp) range.left
    obtain ⟨list, rest⟩ := ih (fun v member => each v (by simp [member])) range.right
    exact ⟨a :: list, by rw [cons]; exact first.append rest⟩

private theorem hasTree_lexeme {type : TokenType} {leaves : α → List Leaf} (make : CStr → α)
    (shape : ∀ str, leaves (make str) = [.lexeme type str]) {toks : List Token}
    (matched : ∃ tok : Token, tok.type = type ∧ toks = [tok]) : HasTree leaves toks := by
  obtain ⟨tok, same, rfl⟩ := matched
  intro _
  exact ⟨make (cstr tok.lex), by rw [shape]; exact .cons ⟨same, rfl⟩ .nil⟩

/-- Every rule keeps the property: its tree is built from the trees of its parts. -/
theorem symbolHasTree_closed (symbol : Symbol) (toks : List Token)
    (matched : Matches Token.type symbolHasTree (grammar symbol) toks) : symbolHasTree symbol toks := by
  cases symbol with
  | tree =>
    intro range
    obtain ⟨root, fits⟩ := (show HasTree TreeNode.leaves toks from matched) range
    exact ⟨⟨root⟩, fits⟩
  | treeNode =>
    obtain ⟨u, _, rfl, name, _, _, rfl, ⟨opening, isOpen, rfl⟩, v, _, rfl, args, closing, isClose, rfl⟩ := matched
    intro range
    obtain ⟨name, fitsName⟩ := (show HasTree NodeName.leaves u from name) range.left
    obtain ⟨args, fitsArgs⟩ := (show HasTree NodeArgs.leaves v from args) range.right.right.left
    refine ⟨.mk name args, ?_⟩
    rw [TreeNode.leaves]
    exact fitsName.append ((fits_token isOpen).append (fitsArgs.append (fits_token isClose)))
  | nodeName => exact hasTree_lexeme NodeName.mk (fun _ => rfl) matched
  | nodeArgs =>
    cases matched with
    | inl list =>
      obtain ⟨words, rfl, each⟩ := list
      intro range
      obtain ⟨list, fits⟩ := hasTree_words nodeArgListLeaves rfl (fun _ _ => rfl) each range
      exact ⟨.listArgs list, fits⟩
    | inr literal =>
      intro range
      obtain ⟨literal, fits⟩ := (show HasTree Literal.leaves toks from literal) range
      exact ⟨.literalArgs literal, fits⟩
  | nodeArg =>
    obtain ⟨_, _, rfl, ⟨dot, isDot, rfl⟩, u, _, rfl, name, _, v, rfl, ⟨equal, isEqual, rfl⟩, value⟩ := matched
    intro range
    obtain ⟨name, fitsName⟩ := (show HasTree ArgName.leaves u from name) range.right.left
    obtain ⟨value, fitsValue⟩ := (show HasTree ArgValue.leaves v from value) range.right.right.right
    refine ⟨.mk name value, ?_⟩
    rw [NodeArg.leaves]
    exact (fits_token isDot).append (fitsName.append ((fits_token isEqual).append fitsValue))
  | argName => exact hasTree_lexeme ArgName.mk (fun _ => rfl) matched
  | argValue =>
    rcases matched with node | list | literal
    · intro range
      obtain ⟨node, fits⟩ := (show HasTree TreeNode.leaves toks from node) range
      exact ⟨.nodeValue node, fits⟩
    · obtain ⟨_, _, rfl, ⟨word, isWord, rfl⟩, _, _, rfl, ⟨opening, isOpen, rfl⟩, u, _, rfl, base, _, _, rfl,
        ⟨closing, isClose, rfl⟩, _, _, rfl, ⟨first, isFirst, rfl⟩, _, _, rfl, ⟨words, rfl, each⟩,
        last, isLast, rfl⟩ := list
      intro range
      obtain ⟨base, fitsBase⟩ := (show HasTree NodeName.leaves u from base) range.right.right.left
      obtain ⟨elems, fitsElems⟩ := hasTree_words listElemsLeaves rfl (fun _ _ => rfl) each
        range.right.right.right.right.right.left
      refine ⟨.listValue (.mk base elems), ?_⟩
      rw [ArgValue.leaves, NodeList.leaves]
      exact (fits_token isWord).append ((fits_token isOpen).append (fitsBase.append ((fits_token isClose).append
        ((fits_token isFirst).append (fitsElems.append (fits_token isLast))))))
    · intro range
      obtain ⟨literal, fits⟩ := (show HasTree Literal.leaves toks from literal) range
      exact ⟨.literalValue literal, fits⟩
  | listElem =>
    obtain ⟨_, _, rfl, ⟨opening, isOpen, rfl⟩, _, _, rfl, ⟨num, isNum, rfl⟩, _, _, rfl, ⟨closing, isClose, rfl⟩,
      _, v, rfl, ⟨equal, isEqual, rfl⟩, node⟩ := matched
    intro range
    obtain ⟨numeral, small⟩ := range num (by simp) isNum
    obtain ⟨node, fitsNode⟩ := (show HasTree TreeNode.leaves v from node) range.right.right.right.right
    have value : decimal (cstr num.lex) = (UInt8.ofNat (decimal (cstr num.lex))).toNat := by
      rw [UInt8.toNat_ofNat']
      omega
    have fitsNum : Fits [.index (UInt8.ofNat (decimal (cstr num.lex)))] [num] :=
      .cons ⟨isNum, numeral, value⟩ .nil
    refine ⟨.mk (UInt8.ofNat (decimal (cstr num.lex))) node, ?_⟩
    rw [ListElem.leaves]
    exact (fits_token isOpen).append (fitsNum.append ((fits_token isClose).append
      ((fits_token isEqual).append fitsNode)))
  | literal => exact hasTree_lexeme Literal.mk (fun _ => rfl) matched

/-- A word of a right-hand side with its numbers in range. -/
structure Derived (rhs : TreeRhs) (toks : List Token) : Prop where
  derives : Derives Token.type grammar rhs toks
  range : NumsInRange toks

namespace Derived
variable {rhs rhs' : TreeRhs} {u v toks : List Token}

theorem term {type : TokenType} (other : type ≠ .num) (fits : Fits [.token type] toks) :
    Derived (.term type) toks := by
  obtain ⟨tok, rfl, rfl⟩ := fits_singleton.mp fits
  refine ⟨.term tok, ?_⟩
  intro t member same
  rw [List.mem_singleton.mp member] at same
  exact absurd same other

theorem lexeme {type : TokenType} {str : CStr} (other : type ≠ .num) (fits : Fits [.lexeme type str] toks) :
    Derived (.term type) toks := by
  obtain ⟨tok, rfl, same, -⟩ := fits_singleton.mp fits
  exact term other (fits_token same)

theorem index {idx : UInt8} (fits : Fits [.index idx] toks) : Derived (.term .num) toks := by
  obtain ⟨tok, rfl, isNum, numeral, value⟩ := fits_singleton.mp fits
  refine ⟨isNum ▸ .term tok, ?_⟩
  intro t member _
  rw [List.mem_singleton.mp member]
  exact ⟨numeral, by have := idx.toNat_lt; omega⟩

theorem ref {symbol : Symbol} (body : Derived (grammar symbol) toks) : Derived (.ref symbol) toks :=
  ⟨.ref body.derives, body.range⟩

theorem seq (first : Derived rhs u) (second : Derived rhs' v) : Derived (.seq rhs rhs') (u ++ v) := by
  refine ⟨.seq first.derives second.derives, ?_⟩
  intro tok member
  cases List.mem_append.mp member with
  | inl left => exact first.range tok left
  | inr right => exact second.range tok right

theorem altLeft (left : Derived rhs toks) : Derived (.alt rhs rhs') toks := ⟨.altLeft left.derives, left.range⟩

theorem altRight (right : Derived rhs' toks) : Derived (.alt rhs rhs') toks := ⟨.altRight right.derives, right.range⟩

theorem starNil : Derived (.star rhs) [] := ⟨.starNil, by simp [NumsInRange]⟩

theorem starCons (head : Derived rhs u) (tail : Derived (.star rhs) v) : Derived (.star rhs) (u ++ v) :=
  ⟨.starCons head.derives tail.derives, (seq head tail).range⟩

end Derived

mutual

theorem TreeNode.derived : (node : TreeNode) → ∀ {toks}, Fits node.leaves toks → Derived (.ref .treeNode) toks
  | .mk name args, toks, fits => by
    rw [TreeNode.leaves] at fits
    obtain ⟨a, _, rfl, name, fits⟩ := fits_append.mp fits
    obtain ⟨b, _, rfl, opening, fits⟩ := fits_append.mp fits
    obtain ⟨c, d, rfl, arguments, closing⟩ := fits_append.mp fits
    exact .ref (.seq (.ref (.lexeme (by decide) name)) (.seq (.term (by decide) opening)
      (.seq (args.derived arguments) (.term (by decide) closing))))
  termination_by structural node => node

theorem NodeArgs.derived : (args : NodeArgs) → ∀ {toks}, Fits args.leaves toks → Derived (.ref .nodeArgs) toks
  | .listArgs list, _, fits => .ref (.altLeft (nodeArgList_derived list fits))
  | .literalArgs _, _, fits => .ref (.altRight (.ref (.lexeme (by decide) fits)))
  termination_by structural args => args

theorem nodeArgList_derived : (list : List NodeArg) → ∀ {toks}, Fits (nodeArgListLeaves list) toks →
    Derived (.star (.ref .nodeArg)) toks
  | [], _, fits => by
    rw [fits_nil.mp fits]
    exact .starNil
  | arg :: list, _, fits => by
    obtain ⟨u, v, rfl, head, tail⟩ := fits_append.mp fits
    exact .starCons (arg.derived head) (nodeArgList_derived list tail)
  termination_by structural list => list

theorem NodeArg.derived : (arg : NodeArg) → ∀ {toks}, Fits arg.leaves toks → Derived (.ref .nodeArg) toks
  | .mk name value, _, fits => by
    rw [NodeArg.leaves] at fits
    obtain ⟨a, _, rfl, dot, fits⟩ := fits_append.mp fits
    obtain ⟨b, _, rfl, name, fits⟩ := fits_append.mp fits
    obtain ⟨c, d, rfl, equal, fits⟩ := fits_append.mp fits
    exact .ref (.seq (.term (by decide) dot) (.seq (.ref (.lexeme (by decide) name))
      (.seq (.term (by decide) equal) (value.derived fits))))
  termination_by structural arg => arg

theorem ArgValue.derived : (value : ArgValue) → ∀ {toks}, Fits value.leaves toks → Derived (.ref .argValue) toks
  | .nodeValue node, _, fits => .ref (.altLeft (node.derived fits))
  | .listValue list, _, fits => .ref (.altRight (.altLeft (list.derived fits)))
  | .literalValue _, _, fits => .ref (.altRight (.altRight (.ref (.lexeme (by decide) fits))))
  termination_by structural value => value

theorem NodeList.derived : (list : NodeList) → ∀ {toks}, Fits list.leaves toks →
    Derived (.seq (.term .kwList) (.seq (.term .openAngbrk) (.seq (.ref .nodeName) (.seq (.term .closeAngbrk)
      (.seq (.term .openSqbrk) (.seq (.star (.ref .listElem)) (.term .closeSqbrk))))))) toks
  | .mk base elems, _, fits => by
    rw [NodeList.leaves] at fits
    obtain ⟨a, _, rfl, word, fits⟩ := fits_append.mp fits
    obtain ⟨b, _, rfl, opening, fits⟩ := fits_append.mp fits
    obtain ⟨c, _, rfl, base, fits⟩ := fits_append.mp fits
    obtain ⟨d, _, rfl, closing, fits⟩ := fits_append.mp fits
    obtain ⟨e, _, rfl, first, fits⟩ := fits_append.mp fits
    obtain ⟨f, g, rfl, elements, last⟩ := fits_append.mp fits
    exact .seq (.term (by decide) word) (.seq (.term (by decide) opening) (.seq (.ref (.lexeme (by decide) base))
      (.seq (.term (by decide) closing) (.seq (.term (by decide) first)
        (.seq (listElems_derived elems elements) (.term (by decide) last))))))
  termination_by structural list => list

theorem listElems_derived : (elems : List ListElem) → ∀ {toks}, Fits (listElemsLeaves elems) toks →
    Derived (.star (.ref .listElem)) toks
  | [], _, fits => by
    rw [fits_nil.mp fits]
    exact .starNil
  | elem :: elems, _, fits => by
    obtain ⟨u, v, rfl, head, tail⟩ := fits_append.mp fits
    exact .starCons (elem.derived head) (listElems_derived elems tail)
  termination_by structural elems => elems

theorem ListElem.derived : (elem : ListElem) → ∀ {toks}, Fits elem.leaves toks → Derived (.ref .listElem) toks
  | .mk index node, _, fits => by
    rw [ListElem.leaves] at fits
    obtain ⟨a, _, rfl, opening, fits⟩ := fits_append.mp fits
    obtain ⟨b, _, rfl, num, fits⟩ := fits_append.mp fits
    obtain ⟨c, _, rfl, closing, fits⟩ := fits_append.mp fits
    obtain ⟨d, e, rfl, equal, fits⟩ := fits_append.mp fits
    exact .ref (.seq (.term (by decide) opening) (.seq (.index num) (.seq (.term (by decide) closing)
      (.seq (.term (by decide) equal) (node.derived fits)))))
  termination_by structural elem => elem

end

/-- The sentences of the grammar with numbers in range are the token sequences read from a tree. -/
theorem sentence_iff_fits (toks : List Token) :
    Sentence .tree toks ∧ NumsInRange toks ↔ ∃ tree : Tree, Fits tree.leaves toks := by
  constructor
  · rintro ⟨derived, range⟩
    exact (show HasTree Tree.leaves toks from derived.matches symbolHasTree_closed) range
  · rintro ⟨tree, fits⟩
    have derived := tree.root.derived fits
    exact ⟨.ref derived.derives, derived.range⟩

end CxxpyTree
