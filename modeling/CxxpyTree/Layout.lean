import CxxpyTree.LexerRun

/-! Texts that spell a sequence of items with layout between them, and what repeated calls of
`next_token` make of them. -/

namespace CxxpyTree

/-- `text` spells `items` with white space and comments between them. A comment is `#` up to and
including the end of its line; it may stand where the text behind it satisfies `mayFollow`. -/
inductive Spells (mayFollow : List Char → Prop) : List Item → List Char → Prop where
  | done : Spells mayFollow [] []
  | space {c items text} (space : isspace c = true) (rest : Spells mayFollow items text) :
      Spells mayFollow items (c :: text)
  | comment {body items text} (inside : newline ∉ body) (allowed : mayFollow text)
      (rest : Spells mayFollow items text) : Spells mayFollow items ('#' :: body ++ newline :: text)
  | lastComment {body} (inside : newline ∉ body) : Spells mayFollow [] ('#' :: body)
  | item {item items w text} (spelled : Item.Spelled item w) (bounded : item.Bounded text)
      (rest : Spells mayFollow items text) : Spells mayFollow (item :: items) (w ++ text)

/-- Any layout: comments stand wherever white space may. -/
def SpellsFreely : List Item → List Char → Prop := Spells fun _ => True

/-- Nothing but its own newline follows a comment, so that at most one comment ends the text. -/
def SpellsCommentLast : List Item → List Char → Prop := Spells (· = [])

/-- Repeated `next_token` up to EOS, the `k`-th call under `argCtxt k`: types and lexemes. -/
def lexTokens : Nat → (Nat → Bool) → Input → Except Stop (List (TokenType × List Char))
  | 0, _, _ => .error .outOfFuel
  | fuel + 1, argCtxt, s =>
    match nextToken (argCtxt 0) s with
    | .error stop => .error stop
    | .ok (tok, s') =>
      if tok.type = .eos then .ok []
      else
        match lexTokens fuel (fun k => argCtxt (k + 1)) s' with
        | .error stop => .error stop
        | .ok toks => .ok ((tok.type, tok.lex) :: toks)

def lexInput (argCtxt : Nat → Bool) (type : InputType) (input : List Char) :
    Except Stop (List (TokenType × List Char)) :=
  lexTokens (input.length + 1) argCtxt (Input.init type input)

def itemTokens : (Nat → Bool) → List Item → List (TokenType × List Char)
  | _, [] => []
  | argCtxt, item :: items => (item.type (argCtxt 0), item.lex) :: itemTokens (fun k => argCtxt (k + 1)) items

section Trim

theorem trimNewline_append {w text : List Char} (some : text ≠ []) :
    trimNewline (w ++ text) = w ++ trimNewline text := by
  unfold trimNewline
  rw [List.getLast?_append_of_ne_nil _ some, List.dropLast_append_of_ne_nil some]
  split <;> rfl

theorem trimNewline_cons {c : Char} {text : List Char} (some : text ≠ []) :
    trimNewline (c :: text) = c :: trimNewline text := trimNewline_append (w := [c]) some

theorem trimNewline_of_last {text : List Char} (other : text.getLast? ≠ some newline) : trimNewline text = text := by
  rw [trimNewline, if_neg other]

theorem trimNewline_head {c : Char} {text : List Char} (first : c ∈ (trimNewline text).head?) : c ∈ text.head? := by
  unfold trimNewline at first
  split at first
  · cases text with
    | nil => exact first
    | cons d text =>
      cases text with
      | nil => cases first
      | cons e text => simpa using first
  · exact first

theorem trimNewline_comment {body : List Char} (inside : newline ∉ body) :
    trimNewline ('#' :: body) = '#' :: body := by
  apply trimNewline_of_last
  intro last
  have member := List.mem_of_getLast? last
  cases member with
  | tail _ later => exact inside later

theorem Item.Bounded.trimNewline {item : Item} {text : List Char} (bounded : item.Bounded text) :
    item.Bounded (trimNewline text) := by
  cases item with
  | word => exact fun c first => bounded c (trimNewline_head first)
  | number => exact fun c first => bounded c (trimNewline_head first)
  | punct => trivial
  | literal => trivial

/-- A token does not end with a newline. -/
theorem Item.Spelled.last_ne {item : Item} {w : List Char} (spelled : item.Spelled w) : w.getLast? ≠ some newline := by
  intro last
  have member := List.mem_of_getLast? last
  have absent : isident newline = false ∧ isdigit newline = false ∧ ischartoken newline = none := by decide
  cases spelled with
  | punct char =>
    obtain rfl := List.mem_singleton.mp member
    rw [absent.2.2] at char
    cases char
  | word first later =>
    cases member with
    | head => rw [isident0_isident first] at absent; cases absent.1
    | tail _ inside => rw [later _ inside] at absent; cases absent.1
  | @literal quote body isQuote valid =>
    simp only [← List.cons_append, List.getLast?_append, List.getLast?_singleton, Option.some_or, Option.some.injEq]
      at last
    rcases isQuote with rfl | rfl <;> exact absurd last (by decide)
  | number numeral =>
    rw [numeral.2 _ member] at absent
    cases absent.2.1

end Trim

section Spelling
variable {mayFollow : List Char → Prop} {items : List Item} {text : List Char}

theorem Spells.items_of_nil (spells : Spells mayFollow items []) : items = [] := by
  generalize nothing : ([] : List Char) = text at spells
  cases spells with
  | done => rfl
  | lastComment => rfl
  | space => cases nothing
  | comment => cases nothing
  | item spelled _ _ =>
    obtain ⟨c, tail, rfl, -⟩ := spelled.solid
    cases nothing

/-- Without its last newline a text spells the same items, now with no comment before its end. -/
theorem SpellsCommentLast.trimNewline (spells : SpellsCommentLast items text) :
    Spells (fun _ => False) items (trimNewline text) := by
  induction spells with
  | done => exact .done
  | @space c items text space rest ih =>
    cases text with
    | nil =>
      by_cases ends : c = newline
      · subst ends
        exact ih
      · rw [trimNewline_of_last (by simpa using ends)]
        exact .space space ih
    | cons d text =>
      rw [trimNewline_cons (by simp)]
      exact .space space ih
  | @comment body items text inside allowed rest =>
    subst allowed
    rw [rest.items_of_nil]
    have trimmed : CxxpyTree.trimNewline ('#' :: body ++ [newline]) = '#' :: body := by
      rw [CxxpyTree.trimNewline, List.getLast?_concat, if_pos rfl, List.dropLast_concat]
    rw [trimmed]
    exact .lastComment inside
  | lastComment inside =>
    rw [trimNewline_comment inside]
    exact .lastComment inside
  | @item item items w text spelled bounded rest ih =>
    cases text with
    | nil =>
      rw [List.append_nil, trimNewline_of_last spelled.last_ne]
      have whole := Spells.item spelled (bounded.trimNewline) ih
      rwa [show CxxpyTree.trimNewline [] = [] from rfl, List.append_nil] at whole
    | cons d text =>
      rw [trimNewline_append (by simp)]
      exact .item spelled bounded.trimNewline ih

end Spelling

section Lexing
variable {c : Char} {rest w : List Char} {pos : Pos}

theorem nextToken_space (space : isspace c = true) (argCtxt : Bool) :
    nextToken argCtxt ⟨c :: rest, pos⟩ = nextToken argCtxt ⟨rest, pos.addRange [c]⟩ := by
  rw [nextToken, nextToken, skipSpaces_space space]

/-- Behind a comment the next character is its newline, which starts no token. -/
theorem nextToken_comment {body : List Char} (inside : newline ∉ body) (rest : List Char) (pos : Pos) (argCtxt : Bool) :
    ∃ err, nextToken argCtxt ⟨'#' :: body ++ newline :: rest, pos⟩ = .error (.error err) := by
  obtain ⟨pos', skipped⟩ := skipSpaces_comment inside rest pos
  refine ⟨⟨pos', .unexpectChar newline⟩, ?_⟩
  rw [nextToken, skipped]
  rfl

theorem nextToken_end (skipped : (skipSpaces ⟨rest, pos⟩).rest = []) (argCtxt : Bool) :
    ∃ tok s', nextToken argCtxt ⟨rest, pos⟩ = .ok (tok, s') ∧ tok.type = .eos := by
  rw [nextToken]
  generalize skipSpaces ⟨rest, pos⟩ = t at skipped
  obtain ⟨text, pos'⟩ := t
  subst skipped
  exact ⟨_, _, rfl, rfl⟩

theorem Item.Spelled.type_ne {item : Item} (spelled : item.Spelled w) (argCtxt : Bool) :
    item.type argCtxt ≠ .eos := by
  cases spelled with
  | @punct c type char =>
    have other : (ischartoken c != some .eos) = true :=
      ischartoken_all (fun d => ischartoken d != some .eos) (by decide) char
    rintro (rfl : type = .eos)
    rw [char] at other
    cases other
  | word first later =>
    simp only [Item.type, wordType]
    split
    · decide
    · split <;> decide
  | literal => simp [Item.type]
  | number => simp [Item.type]

theorem lexTokens_space (space : isspace c = true) (fuel : Nat) (argCtxt : Nat → Bool) :
    lexTokens fuel argCtxt ⟨c :: rest, pos⟩ = lexTokens fuel argCtxt ⟨rest, pos.addRange [c]⟩ := by
  cases fuel with
  | zero => rfl
  | succ fuel => rw [lexTokens, lexTokens, nextToken_space space]

theorem lexTokens_item {item : Item} (spelled : item.Spelled w) (bounded : item.Bounded rest) (fuel : Nat)
    (argCtxt : Nat → Bool) :
    lexTokens (fuel + 1) argCtxt ⟨w ++ rest, pos⟩ =
      match lexTokens fuel (fun k => argCtxt (k + 1)) ⟨rest, pos.addSize w.length⟩ with
      | .error stop => .error stop
      | .ok toks => .ok ((item.type (argCtxt 0), item.lex) :: toks) := by
  rw [lexTokens, nextToken_spelled spelled bounded]
  simp only [if_neg (spelled.type_ne (argCtxt 0))]

/-- A text with no comment before its end lexes to its items. -/
theorem lexTokens_spells {items : List Item} {text : List Char} (spells : Spells (fun _ => False) items text) :
    ∀ (fuel : Nat) (argCtxt : Nat → Bool) (pos : Pos), text.length < fuel →
      lexTokens fuel argCtxt ⟨text, pos⟩ = .ok (itemTokens argCtxt items) := by
  have ends : ∀ {text pos}, (skipSpaces ⟨text, pos⟩).rest = [] → ∀ fuel argCtxt, text.length < fuel →
      lexTokens fuel argCtxt ⟨text, pos⟩ = .ok [] := by
    intro text pos skipped fuel argCtxt enough
    cases fuel with
    | zero => exact absurd enough (by omega)
    | succ fuel =>
      obtain ⟨tok, s', returned, isEos⟩ := nextToken_end skipped (argCtxt 0)
      rw [lexTokens, returned]
      simp [isEos]
  induction spells with
  | done => exact fun fuel argCtxt pos => ends (by rw [skipSpaces_nil]) fuel argCtxt
  | space space _ ih =>
    intro fuel argCtxt pos enough
    rw [lexTokens_space space]
    exact ih fuel argCtxt _ (by simp only [List.length_cons] at enough; omega)
  | comment _ allowed => exact allowed.elim
  | lastComment inside =>
    intro fuel argCtxt pos
    obtain ⟨pos', skipped⟩ := skipSpaces_lastComment inside pos
    exact ends (by rw [skipped]) fuel argCtxt
  | @item item items w text spelled bounded _ ih =>
    intro fuel argCtxt pos enough
    have some := spelled.length_pos
    rw [List.length_append] at enough
    cases fuel with
    | zero => exact absurd enough (by omega)
    | succ fuel =>
      rw [lexTokens_item spelled bounded, ih fuel _ _ (by omega)]
      rfl

theorem trimNewline_within (text : List Char) : trimNewline text <+: text := by
  unfold trimNewline
  split
  · exact List.dropLast_prefix _
  · exact List.prefix_refl _

/-- The parser starts on a part of the bytes it was given. -/
theorem init_within (type : InputType) (input : List Char) : (Input.init type input).rest <+: input := by
  cases type with
  | text => exact (trimNewline_within _).trans (List.takeWhile_prefix _)
  | file => exact trimNewline_within _

/-- Where the lexer gets to the end of a freely spelled text, no comment stood before its end. -/
theorem comments_last_of_lexTokens {items : List Item} {text : List Char} (spells : SpellsFreely items text) :
    ∀ (fuel : Nat) (argCtxt : Nat → Bool) (pos : Pos) toks,
      lexTokens fuel argCtxt ⟨trimNewline text, pos⟩ = .ok toks → SpellsCommentLast items text := by
  induction spells with
  | done => exact fun _ _ _ _ _ => .done
  | @space c items text space rest ih =>
    intro fuel argCtxt pos toks lexed
    cases text with
    | nil =>
      obtain rfl := rest.items_of_nil
      exact .space space .done
    | cons d text =>
      rw [trimNewline_cons (by simp), lexTokens_space space] at lexed
      exact .space space (ih fuel argCtxt _ toks lexed)
  | @comment body items text inside _ rest ih =>
    intro fuel argCtxt pos toks lexed
    cases text with
    | nil =>
      obtain rfl := rest.items_of_nil
      exact .comment inside rfl .done
    | cons d text =>
      rw [trimNewline_append (by simp), trimNewline_cons (by simp)] at lexed
      cases fuel with
      | zero => cases lexed
      | succ fuel =>
        obtain ⟨err, thrown⟩ := nextToken_comment inside (trimNewline (d :: text)) pos (argCtxt 0)
        rw [lexTokens, thrown] at lexed
        cases lexed
  | lastComment inside => exact fun _ _ _ _ _ => .lastComment inside
  | @item item items w text spelled bounded rest ih =>
    intro fuel argCtxt pos toks lexed
    cases text with
    | nil =>
      obtain rfl := rest.items_of_nil
      exact .item spelled bounded .done
    | cons d text =>
      rw [trimNewline_append (by simp)] at lexed
      cases fuel with
      | zero => cases lexed
      | succ fuel =>
        rw [lexTokens_item spelled bounded.trimNewline] at lexed
        split at lexed
        · cases lexed
        · next toks' tail => exact .item spelled bounded (ih _ _ _ _ tail)

end Lexing

/-- Two freely spelled texts of the same items give the same tokens up to EOS exactly when in
neither of them a comment is followed by anything but its own newline. -/
theorem layout_agrees_iff {items : List Item} {typeA typeB : InputType} {a b : List Char} (argCtxt : Nat → Bool)
    (spellsA : SpellsFreely items (inputBytes typeA a)) (spellsB : SpellsFreely items (inputBytes typeB b)) :
    (∃ toks, lexInput argCtxt typeA a = .ok toks ∧ lexInput argCtxt typeB b = .ok toks) ↔
      SpellsCommentLast items (inputBytes typeA a) ∧ SpellsCommentLast items (inputBytes typeB b) := by
  constructor
  · rintro ⟨toks, lexedA, lexedB⟩
    exact ⟨comments_last_of_lexTokens spellsA _ argCtxt _ toks lexedA,
      comments_last_of_lexTokens spellsB _ argCtxt _ toks lexedB⟩
  · rintro ⟨lastA, lastB⟩
    refine ⟨itemTokens argCtxt items, ?_, ?_⟩
    · exact lexTokens_spells lastA.trimNewline _ argCtxt _ (Nat.lt_succ_of_le (init_within typeA a).length_le)
    · exact lexTokens_spells lastB.trimNewline _ argCtxt _ (Nat.lt_succ_of_le (init_within typeB b).length_le)

def nodeItems : List Item := [.word ['A'], .punct .openParen '(', .punct .closeParen ')']

private theorem spells_parens {mayFollow : List Char → Prop} {text : List Char} (rest : Spells mayFollow [] text) :
    Spells mayFollow [.punct .openParen '(', .punct .closeParen ')'] ("()".toList ++ text) :=
  .item (w := ['(']) (.punct rfl) trivial (.item (w := [')']) (.punct rfl) trivial rest)

private theorem spells_comment {mayFollow : List Char → Prop} {items : List Item} {text : List Char}
    (allowed : mayFollow text) (rest : Spells mayFollow items text) :
    Spells mayFollow items ("#c\n".toList ++ text) :=
  @Spells.comment mayFollow ['c'] items text (by decide) allowed rest

private theorem spells_name {mayFollow : List Char → Prop} {items : List Item} {c : Char} {text : List Char}
    (other : isident c = false) (rest : Spells mayFollow items (c :: text)) :
    Spells mayFollow (.word ['A'] :: items) ("A".toList ++ c :: text) := by
  refine .item (w := ['A']) (.word (by decide) (by simp)) ?_ rest
  rintro d first
  cases first
  exact other

/-- Layout at the end and a last comment: the tokens of `A()` all the same. -/
theorem layout_agrees_last_comment : ∃ toks,
    lexInput (fun _ => false) .text "A ()#c\n".toList = .ok toks ∧ lexInput (fun _ => false) .file "A()".toList = .ok toks := by
  have plain {mayFollow} : Spells mayFollow nodeItems "A()".toList :=
    spells_name (by decide) (spells_parens .done)
  have spaced {mayFollow : List Char → Prop} (allowed : mayFollow []) : Spells mayFollow nodeItems "A ()#c\n".toList :=
    spells_name (by decide) (.space (by decide) (spells_parens (spells_comment allowed .done)))
  have agrees := @layout_agrees_iff nodeItems .text .file "A ()#c\n".toList "A()".toList (fun _ => false) (spaced trivial) plain
  exact agrees.mpr ⟨spaced rfl, plain⟩

/-- A comment between two tokens: its newline is an unexpected character. -/
theorem layout_disagrees_inner_comment :
    SpellsFreely nodeItems (inputBytes .text "A#c\n()".toList) ∧ SpellsFreely nodeItems (inputBytes .text "A()".toList) ∧
    lexInput (fun _ => false) .text "A#c\n()".toList = .error (.error ⟨⟨1, 4⟩, .unexpectChar '\n'⟩) ∧
    ¬ ∃ toks, lexInput (fun _ => false) .text "A#c\n()".toList = .ok toks ∧
      lexInput (fun _ => false) .text "A()".toList = .ok toks := by
  have thrown : lexInput (fun _ => false) .text "A#c\n()".toList = .error (.error ⟨⟨1, 4⟩, .unexpectChar '\n'⟩) := by
    rfl
  refine ⟨spells_name (by decide) (spells_comment trivial (spells_parens .done)),
    spells_name (by decide) (spells_parens .done), thrown, ?_⟩
  rintro ⟨toks, lexed, -⟩
  rw [thrown] at lexed
  cases lexed

end CxxpyTree
