import CxxpyTree.LexerTrace
import CxxpyTree.SourceRoundTrip

/-! String literals: what `scan_literal` accepts and how it fails, which characters a lexeme can
hold, and which lexemes are literals again when they are printed. -/

namespace CxxpyTree

/-- The text behind an opening quote goes on as a literal that is closed. -/
def Closes (quote : Char) (text : List Char) : Prop := ∃ body more, text = body ++ quote :: more ∧ LiteralBody quote body

/-- With the right characters behind it the text closes a literal. -/
def MayClose (quote : Char) (text : List Char) : Prop := ∃ more, Closes quote (text ++ more)

/-- Why the text behind an opening quote is no literal: the first position from which nothing helps,
and the message about it. -/
inductive Misfit (quote : Char) (text : List Char) : Nat → Message → Prop where
  | exhausted (open_ : MayClose quote text) : Misfit quote text text.length .endOfInput
  | line {n} (open_ : MayClose quote (text.take n)) (here : text[n]? = some newline)
      (shut : ¬ MayClose quote (text.take (n + 1))) : Misfit quote text n .endOfLine
  | char {n c} (items : LiteralBody quote (text.take n)) (open_ : MayClose quote (text.take n))
      (here : text[n]? = some c) (other : c ≠ newline) (odd : isPlainChar c = false)
      (shut : ¬ MayClose quote (text.take (n + 1))) : Misfit quote text n (.unexpectChar c)

section Scan
variable {quote c : Char} {text body ptr more : List Char}

theorem LiteralBody.mayClose (items : LiteralBody quote body) : MayClose quote body := ⟨[quote], body, [], rfl, items⟩

theorem LiteralBody.append {a b : List Char} (first : LiteralBody quote a) (second : LiteralBody quote b) :
    LiteralBody quote (a ++ b) := by
  induction first with
  | nil => exact second
  | plain plain unescaped other _ ih => exact .plain plain unescaped other ih
  | escape inside _ ih => exact .escape inside ih

/-- What the scan has passed over: items, and then perhaps a backslash that ends the line or the text. -/
theorem scanItems_passed (quote : Char) (text : List Char) :
    LiteralBody quote (scanItems quote text).1 ∨
    ∃ items, LiteralBody quote items ∧ (scanItems quote text).1 = items ++ [backslash] ∧
      ∀ d ∈ (scanItems quote text).2.head?, d = newline := by
  fun_induction scanItems quote text with
  | case1 => exact .inl .nil
  | case2 e isEscape =>
    obtain rfl : e = backslash := by simpa using isEscape
    exact .inr ⟨[], .nil, rfl, by simp⟩
  | case3 e isEscape e' more isNewline =>
    obtain rfl : e = backslash := by simpa using isEscape
    exact .inr ⟨[], .nil, rfl, by simpa using isNewline⟩
  | case4 e isEscape e' more inside body ptr same ih =>
    obtain rfl : e = backslash := by simpa using isEscape
    rw [same] at ih
    have inside : e' ≠ newline := by simpa using inside
    rcases ih with items | ⟨items, valid, rfl, ends⟩
    · exact .inl (.escape inside items)
    · exact .inr ⟨backslash :: e' :: items, .escape inside valid, rfl, ends⟩
  | case5 => exact .inl .nil
  | case6 e more unescaped goes body ptr same ih =>
    rw [same] at ih
    simp only [Bool.or_eq_true, Bool.not_eq_true', beq_iff_eq, not_or, Bool.not_eq_false] at goes
    have unescaped : e ≠ backslash := by simpa using unescaped
    rcases ih with items | ⟨items, valid, rfl, ends⟩
    · exact .inl (.plain goes.1.1 unescaped goes.2 items)
    · exact .inr ⟨e :: items, .plain goes.1.1 unescaped goes.2 valid, rfl, ends⟩

/-- Where the scan has stopped at a character, it stops there whatever follows. -/
theorem scanItems_again (quote : Char) (text : List Char) : ∀ c rest more, (scanItems quote text).2 = c :: rest →
    scanItems quote ((scanItems quote text).1 ++ c :: more) = ((scanItems quote text).1, c :: more) := by
  fun_induction scanItems quote text with
  | case1 =>
    intro c rest more stop
    cases stop
  | case2 =>
    intro c rest more stop
    cases stop
  | case3 e isEscape e' rest isNewline =>
    intro c rest' more stop
    cases stop
    simp [scanItems, isEscape, isNewline]
  | case4 e isEscape e' rest inside body ptr same ih =>
    intro c rest' more stop
    rw [same] at ih
    have onward := ih c rest' more stop
    simp only [Bool.not_eq_true] at inside
    simp [scanItems, isEscape, inside, onward]
  | case5 e rest unescaped stops =>
    intro c rest' more stop
    cases stop
    cases more <;> simp_all [scanItems]
  | case6 e rest unescaped goes body ptr same ih =>
    intro c rest' more stop
    rw [same] at ih
    have onward := ih c rest' more stop
    cases tail : body ++ c :: more with
    | nil => simp at tail
    | cons d tail' =>
      rw [tail] at onward
      simp_all [scanItems]

variable (isQuote : IsQuote quote)
include isQuote

/-- A text closes a literal exactly if the scan stops at the closing quote. -/
theorem closes_iff : Closes quote text ↔ ∃ more, (scanItems quote text).2 = quote :: more := by
  constructor
  · rintro ⟨body, more, rfl, valid⟩
    exact ⟨more, by rw [scanItems_body isQuote valid]⟩
  · rintro ⟨more, stop⟩
    obtain ⟨whole, ends⟩ := scanItems_split quote text
    have other : quote ≠ newline := by rcases isQuote with rfl | rfl <;> decide
    exact ⟨_, more, by rw [← stop]; exact whole.symm, (ends quote more stop other).1⟩

/-- At a character that is no part of a literal nothing helps any more. -/
theorem not_mayClose {rest : List Char} (stop : (scanItems quote text).2 = c :: rest) (other : c ≠ quote) :
    ¬ MayClose quote ((scanItems quote text).1 ++ [c]) := by
  rintro ⟨more, closes⟩
  rw [List.append_assoc, List.singleton_append] at closes
  obtain ⟨more', stop'⟩ := (closes_iff isQuote).mp closes
  rw [scanItems_again quote text c rest more stop] at stop'
  exact other (List.cons.inj stop').1

theorem passed_mayClose : MayClose quote (scanItems quote text).1 := by
  rcases scanItems_passed quote text with items | ⟨items, valid, same, -⟩
  · exact items.mayClose
  · -- the backslash takes the first of two quotes with it
    have other : quote ≠ newline := by rcases isQuote with rfl | rfl <;> decide
    refine ⟨[quote, quote], items ++ [backslash, quote], [], ?_, valid.append (.escape other .nil)⟩
    rw [same]
    simp

end Scan

private theorem around (body rest : List Char) (c : Char) : (body ++ c :: rest).take body.length = body ∧
    (body ++ c :: rest).take (body.length + 1) = body ++ [c] ∧ (body ++ c :: rest)[body.length]? = some c := by
  refine ⟨List.take_left, ?_, by simp⟩
  rw [show body ++ c :: rest = body ++ [c] ++ rest by simp]
  exact List.take_left' (by simp)

section Literal
variable {quote : Char} (isQuote : IsQuote quote) {pos : Pos} {text body more : List Char}
include isQuote

theorem scanLiteral_closed (split : text = body ++ quote :: more) (valid : LiteralBody quote body) :
    scanLiteral pos quote text = .ok (body, quote :: more) := by
  subst split
  have stop : isPlainChar quote = true ∧ quote ≠ newline := by rcases isQuote with rfl | rfl <;> decide
  simp [scanLiteral, scanItems_body isQuote valid, stop]

/-- Where the text is no literal the scan stops at the first position that rules it out. -/
theorem scanLiteral_misfit (unclosed : ¬ Closes quote text) : ∃ n msg, Misfit quote text n msg ∧
    scanLiteral pos quote text = .error (.error ⟨pos.addSize (1 + n), msg⟩) := by
  have whole := (scanItems_split quote text).1
  have open_ : MayClose quote (scanItems quote text).1 := passed_mayClose isQuote
  refine ⟨(scanItems quote text).1.length, ?_⟩
  cases stop : (scanItems quote text).2 with
  | nil =>
    rw [stop, List.append_nil] at whole
    refine ⟨.endOfInput, ?_, by simp [scanLiteral, stop]⟩
    rw [whole] at open_ ⊢
    exact .exhausted open_
  | cons c rest =>
    have other : c ≠ quote := fun same => unclosed ((closes_iff isQuote).mpr ⟨rest, same ▸ stop⟩)
    have shut := not_mayClose isQuote stop other
    rw [stop] at whole
    obtain ⟨before, behind, here⟩ := around (scanItems quote text).1 rest c
    rw [whole] at before behind here
    rw [← before] at open_
    rw [← behind] at shut
    by_cases isNewline : c = newline
    · subst isNewline
      exact ⟨.endOfLine, .line open_ here shut, by simp [scanLiteral, stop]⟩
    · obtain ⟨items, plain⟩ := (scanItems_split quote text).2 c rest stop isNewline
      have odd : isPlainChar c = false := by
        rw [Bool.eq_false_iff]
        exact fun isPlain => other (plain isPlain)
      rw [← before] at items
      exact ⟨.unexpectChar c, .char items open_ here isNewline odd shut, by simp [scanLiteral, stop, isNewline, odd]⟩

end Literal

/-- `scan_literal` behind a quote succeeds exactly on the texts that close a literal, at its closing
quote; on any other it reports the first position that rules a literal out, and the assertions on
its result never fail. -/
theorem scanLiteral_exact (quote : Char) (isQuote : IsQuote quote) (pos : Pos) (text : List Char) :
    ((∃ result, scanLiteral pos quote text = .ok result) ↔ Closes quote text) ∧
    (∀ body more, text = body ++ quote :: more → LiteralBody quote body →
      scanLiteral pos quote text = .ok (body, quote :: more)) ∧
    (¬ Closes quote text → ∃ n msg, Misfit quote text n msg ∧
      scanLiteral pos quote text = .error (.error ⟨pos.addSize (1 + n), msg⟩)) ∧
    ∀ argCtxt s, nextToken argCtxt s ≠ .error .assertFailed := by
  refine ⟨⟨?_, ?_⟩, fun _ _ => scanLiteral_closed isQuote, scanLiteral_misfit isQuote, ?_⟩
  · rintro ⟨⟨body, ptr⟩, scanned⟩
    obtain ⟨more, -, split, valid⟩ := scanLiteral_ok scanned
    exact ⟨body, more, split, valid⟩
  · rintro ⟨body, more, split, valid⟩
    exact ⟨_, scanLiteral_closed isQuote split valid⟩
  · intro argCtxt s failed
    obtain ⟨err, same⟩ := nextToken_error failed
    cases same

/-- The backslash at the end of `'a\` is part of no literal. -/
theorem scanLiteral_exact_backslash : ∃ n msg, Misfit '\'' ['a', backslash] n msg ∧
    scanLiteral {} '\'' ['a', backslash] = .error (.error ⟨Pos.addSize {} (1 + n), msg⟩) := by
  refine (scanLiteral_exact '\'' (.inl rfl) {} ['a', backslash]).2.2.1 ?_
  intro closes
  obtain ⟨more, stop⟩ := (closes_iff (.inl rfl)).mp closes
  have exhausted : (scanItems '\'' ['a', backslash]).2 = [] := by decide
  rw [exhausted] at stop
  cases stop

/-- The AST node that `parse_literal` makes of a literal token. -/
def Token.literal (tok : Token) : Literal := ⟨cstr tok.lex⟩

section Lexemes
variable {flags : List Bool} {s s' : Input} {lexemes : List Lexeme} {lexeme : Lexeme} {quote : Char} {body : List Char}

/-- Every token of a run has come from a call. -/
theorem lexCalls_token : ∀ {flags : List Bool} {s s' : Input} {lexemes : List Lexeme}, lexCalls flags s = .ok (lexemes, s') →
    ∀ lexeme ∈ lexemes, ∃ argCtxt t t', nextToken argCtxt t = .ok (lexeme.token, t')
  | [], _, _, _, returned => by
    cases returned
    exact nofun
  | argCtxt :: flags, s, s', lexemes, returned => by
    unfold lexCalls at returned
    split at returned
    next => cases returned
    next token mid step =>
      split at returned
      next => cases returned
      next rest =>
        cases returned
        intro lexeme member
        cases member with
        | head => exact ⟨argCtxt, s, mid, step⟩
        | tail _ later => exact lexCalls_token rest lexeme later

theorem nextToken_literal {argCtxt : Bool} {tok : Token} (returned : nextToken argCtxt s = .ok (tok, s')) (isStr : tok.type = .str) :
    ∃ quote, IsQuote quote ∧ LiteralBody quote tok.lex ∧
      (skipSpaces s).rest = quote :: (tok.lex ++ quote :: s'.rest) := by
  rcases nextToken_ok returned with ⟨rfl, -⟩ | ⟨item, w, spelled, split, rfl, -⟩
  · cases isStr
  · cases spelled with
    | punct char => exact absurd isStr (ischartoken_ne_str char)
    | word => exact absurd isStr (wordType_ne_str _ _)
    | number => cases isStr
    | @literal quote body isQuote valid => exact ⟨quote, isQuote, valid, by simpa [Item.lex] using split⟩

/-- The characters of a body that a backslash stands before. -/
def escapedChars : List Char → List Char
  | c :: d :: rest => if c == backslash then d :: escapedChars rest else escapedChars (d :: rest)
  | _ => []

theorem LiteralBody.escaped_subset (valid : LiteralBody quote body) : escapedChars body ⊆ body := by
  induction valid with
  | nil => exact List.nil_subset _
  | @plain c rest _ unescaped _ _ ih =>
    cases rest with
    | nil => exact List.nil_subset _
    | cons d rest =>
      simp only [escapedChars, beq_eq_false_iff_ne.mpr unescaped, Bool.false_eq_true, if_false]
      exact List.subset_cons_of_subset _ ih
  | escape _ _ ih =>
    simp only [escapedChars, beq_self_eq_true, if_true]
    exact List.subset_cons_of_subset _ (List.cons_subset_cons _ ih)

/-- Only a character behind a backslash gets into a literal without the test. -/
theorem LiteralBody.plain_of_escaped (valid : LiteralBody quote body)
    (plain : ∀ c ∈ escapedChars body, isPlainChar c = true) : ∀ c ∈ body, isPlainChar c = true := by
  induction valid with
  | nil => exact nofun
  | @plain c rest isPlain unescaped _ _ ih =>
    refine List.forall_mem_cons.mpr ⟨isPlain, ih ?_⟩
    cases rest with
    | nil => exact nofun
    | cons d rest =>
      simpa only [escapedChars, beq_eq_false_iff_ne.mpr unescaped, Bool.false_eq_true, if_false] using plain
  | escape _ _ ih =>
    simp only [escapedChars, beq_self_eq_true, if_true, List.forall_mem_cons] at plain
    exact List.forall_mem_cons.mpr ⟨by decide, List.forall_mem_cons.mpr ⟨plain.1, ih plain.2⟩⟩

end Lexemes

/-- No control or non-ASCII character in the lexeme, and nothing cut off from what is stored of it. -/
structure Token.Clean (tok : Token) : Prop where
  plain : ∀ c ∈ tok.lex, isPlainChar c = true
  stored : tok.literal.str.length = tok.lex.length

theorem clean_iff {argCtxt : Bool} {s s' : Input} {tok : Token} (returned : nextToken argCtxt s = .ok (tok, s'))
    (isStr : tok.type = .str) : tok.Clean ↔ ∀ c ∈ escapedChars tok.lex, isPlainChar c = true := by
  obtain ⟨quote, -, valid, -⟩ := nextToken_literal returned isStr
  constructor
  · exact fun clean c escaped => clean.plain c (valid.escaped_subset escaped)
  · intro escaped
    have plain := valid.plain_of_escaped escaped
    have free : nul ∉ tok.lex := fun member => absurd (plain nul member) (by decide)
    exact ⟨plain, by rw [Token.literal, cstr_of_nul_free free]⟩

/-- The literals of an input are clean exactly if no backslash in them stands before a control or
non-ASCII character. -/
theorem literals_clean_iff {type : InputType} {input : List Char} {flags : List Bool} {lexemes : List Lexeme} {s' : Input}
    (returned : lexCalls flags (Input.init type input) = .ok (lexemes, s')) :
    (∀ lexeme ∈ lexemes, lexeme.token.type = .str → lexeme.token.Clean) ↔
      ∀ lexeme ∈ lexemes, lexeme.token.type = .str → ∀ c ∈ escapedChars lexeme.token.lex, isPlainChar c = true := by
  refine forall₂_congr fun lexeme member => imp_congr_right fun isStr => ?_
  obtain ⟨argCtxt, t, t', step⟩ := lexCalls_token returned lexeme member
  exact clean_iff step isStr

/-- In `'\a'` the backslash stands before a letter. -/
theorem literals_clean_letter :
    ∃ lexemes s', lexCalls [false] (Input.init .text ['\'', backslash, 'a', '\'']) = .ok (lexemes, s') ∧
      ∀ lexeme ∈ lexemes, lexeme.token.type = .str → lexeme.token.Clean := by
  have read : lexCalls [false] (Input.init .text ['\'', backslash, 'a', '\'']) =
      .ok ([⟨[], ⟨⟨1, 1⟩, .str, [backslash, 'a']⟩, ['\'', backslash, 'a', '\'']⟩], ⟨[], ⟨1, 5⟩⟩) := by decide +kernel
  refine ⟨_, _, read, (literals_clean_iff read).mpr ?_⟩
  simp [escapedChars, isPlainChar]
  decide

/-- A backslash before a NUL in a file gets the NUL into the literal, where its text then ends. -/
theorem literals_not_clean : ∃ lexemes s',
    lexCalls [false] (Input.init .file ['\'', 'a', backslash, nul, 'b', '\'']) = .ok (lexemes, s') ∧
    (¬ ∀ lexeme ∈ lexemes, lexeme.token.type = .str → ∀ c ∈ lexeme.token.lex, isPlainChar c = true) ∧
    ¬ ∀ lexeme ∈ lexemes, lexeme.token.type = .str → lexeme.token.literal.str.length = lexeme.token.lex.length := by
  refine ⟨[⟨[], ⟨⟨1, 1⟩, .str, ['a', backslash, nul, 'b']⟩, ['\'', 'a', backslash, nul, 'b', '\'']⟩], ⟨[], ⟨1, 7⟩⟩,
    by decide +kernel, ?_, ?_⟩
  · simp only [List.forall_mem_singleton, forall_const]
    exact fun plain => absurd (plain nul (by decide)) (by decide)
  · simp only [List.forall_mem_singleton, forall_const]
    decide

section Printed

theorem trimNewline_subset (input : List Char) : trimNewline input ⊆ input := by
  intro c member
  unfold trimNewline at member
  split at member
  · exact (List.dropLast_sublist _).subset member
  · exact member

end Printed

end CxxpyTree
