import CxxpyTree.Lexer
import CxxpyTree.ParserRun

/-! What one call of `next_token` does: the text it uses up and the tokens it can return. -/

namespace CxxpyTree

section Spaces
variable {c : Char} {rest body : List Char} {pos : Pos}

theorem skipSpaces_nil : skipSpaces ⟨[], pos⟩ = ⟨[], pos⟩ := by simp [skipSpaces, skipComment]

/-- At a character that starts a token nothing is skipped. -/
theorem skipSpaces_solid (solid : isspace c = false) (other : c ≠ '#') :
    skipSpaces ⟨c :: rest, pos⟩ = ⟨c :: rest, pos⟩ := by
  have stays : (c :: rest).dropWhile isspace = c :: rest := List.dropWhile_cons_of_neg (by simp [solid])
  have ends : skipComment (c :: rest) = c :: rest := by
    unfold skipComment
    split
    · next same => cases same; exact absurd rfl other
    · rfl
  simp [skipSpaces, stays, ends]

theorem skipComment_suffix (text : List Char) : skipComment text <:+ text := by
  unfold skipComment
  split
  · exact (List.dropWhile_suffix _).trans (List.suffix_cons _ _)
  · exact List.suffix_refl _

theorem skipSpaces_suffix (s : Input) : (skipSpaces s).rest <:+ s.rest :=
  (skipComment_suffix _).trans (List.dropWhile_suffix _)

/-- White space is skipped character by character. -/
theorem skipSpaces_space (space : isspace c = true) :
    skipSpaces ⟨c :: rest, pos⟩ = skipSpaces ⟨rest, pos.addRange [c]⟩ := by
  have first : (c :: rest).dropWhile isspace = rest.dropWhile isspace := List.dropWhile_cons_of_pos space
  have bound := (skipSpaces_suffix ⟨rest, pos⟩).length_le
  simp only [skipSpaces] at bound
  simp only [skipSpaces, first, ← Pos.addRange_append, List.length_cons, Nat.succ_sub bound]
  rfl

/-- A comment is skipped up to its newline, which becomes the next character. -/
theorem skipSpaces_comment (inside : newline ∉ body) (rest : List Char) (pos : Pos) :
    ∃ pos', skipSpaces ⟨'#' :: body ++ newline :: rest, pos⟩ = ⟨newline :: rest, pos'⟩ := by
  have stays : ('#' :: body ++ newline :: rest).dropWhile isspace = '#' :: (body ++ newline :: rest) :=
    List.dropWhile_cons_of_neg (by decide)
  have plain : ∀ d ∈ body, (d != newline) = true := by
    intro d member
    simp only [bne_iff_ne, ne_eq]
    rintro rfl
    exact inside member
  have line : (body ++ newline :: rest).dropWhile (· != newline) = newline :: rest := by
    rw [List.dropWhile_append_of_pos plain]
    exact List.dropWhile_cons_of_neg (by simp)
  simp only [skipSpaces, stays, skipComment, line]
  exact ⟨_, rfl⟩

theorem skipSpaces_lastComment (inside : newline ∉ body) (pos : Pos) :
    ∃ pos', skipSpaces ⟨'#' :: body, pos⟩ = ⟨[], pos'⟩ := by
  have stays : ('#' :: body).dropWhile isspace = '#' :: body := List.dropWhile_cons_of_neg (by decide)
  have line : body.dropWhile (· != newline) = [] := by
    rw [List.dropWhile_eq_nil_iff]
    intro d member
    simp only [bne_iff_ne, ne_eq]
    rintro rfl
    exact inside member
  simp only [skipSpaces, stays, skipComment, line]
  exact ⟨_, rfl⟩

end Spaces

/-- The text between the quotes of a literal: plain characters other than the quote and the
backslash, and backslashes each followed by any character but a newline. -/
inductive LiteralBody (quote : Char) : List Char → Prop where
  | nil : LiteralBody quote []
  | plain {c rest} (plain : isPlainChar c = true) (unescaped : c ≠ backslash) (other : c ≠ quote)
      (tail : LiteralBody quote rest) : LiteralBody quote (c :: rest)
  | escape {c rest} (inside : c ≠ newline) (tail : LiteralBody quote rest) :
      LiteralBody quote (backslash :: c :: rest)

def IsQuote (quote : Char) : Prop := quote = '\'' ∨ quote = '"'

theorem IsQuote.plain {quote : Char} (isQuote : IsQuote quote) : isPlainChar quote = true ∧ quote ≠ backslash := by
  rcases isQuote with rfl | rfl <;> decide

section Scan
variable {quote c : Char} {rest body : List Char}

private theorem scanItems_stop (unescaped : c ≠ backslash) (stops : isPlainChar c = false ∨ c = newline ∨ c = quote) :
    scanItems quote (c :: rest) = ([], c :: rest) := by
  have ends : (!isPlainChar c || c == newline || c == quote) = true := by simpa [or_assoc] using stops
  cases rest <;> simp only [scanItems, beq_eq_false_iff_ne.mpr unescaped, ends, Bool.false_eq_true, if_false, if_true]

private theorem scanItems_plain (plain : isPlainChar c = true) (unescaped : c ≠ backslash) (other : c ≠ quote) :
    scanItems quote (c :: rest) = (c :: (scanItems quote rest).1, (scanItems quote rest).2) := by
  have inside : c ≠ newline := by
    rintro rfl
    exact absurd plain (by decide)
  cases rest <;> simp [scanItems, unescaped, plain, other, inside]

private theorem scanItems_escape (inside : c ≠ newline) :
    scanItems quote (backslash :: c :: rest) =
      (backslash :: c :: (scanItems quote rest).1, (scanItems quote rest).2) := by
  simp [scanItems, inside]

/-- The scan passes over a body and stops at the quote behind it. -/
theorem scanItems_body (isQuote : IsQuote quote) (valid : LiteralBody quote body) :
    scanItems quote (body ++ quote :: rest) = (body, quote :: rest) := by
  induction valid with
  | nil => exact scanItems_stop isQuote.plain.2 (.inr (.inr rfl))
  | plain plain unescaped other _ ih => rw [List.cons_append, scanItems_plain plain unescaped other, ih]
  | escape inside _ ih => rw [List.cons_append, List.cons_append, scanItems_escape inside, ih]

/-- The scan splits its text in two; when it stops at a character other than a newline, the
first part is a body. -/
theorem scanItems_split (quote : Char) (text : List Char) :
    (scanItems quote text).1 ++ (scanItems quote text).2 = text ∧
    ∀ c more, (scanItems quote text).2 = c :: more → c ≠ newline →
      LiteralBody quote (scanItems quote text).1 ∧ (isPlainChar c = true → c = quote) := by
  fun_induction scanItems quote text with
  | case1 => simp
  | case2 => simp
  | case3 e isEscape e' more isNewline =>
    refine ⟨rfl, ?_⟩
    intro c more' same other
    cases same
    exact absurd (by simpa using isNewline) other
  | case4 e isEscape e' more inside body ptr _ ih =>
    obtain rfl : e = backslash := by simpa using isEscape
    rw [‹scanItems quote more = (body, ptr)›] at ih
    refine ⟨by simpa using ih.1, ?_⟩
    intro c more' same other
    exact ⟨.escape (by simpa using inside) (ih.2 c more' same other).1, (ih.2 c more' same other).2⟩
  | case5 e more unescaped stops =>
    refine ⟨rfl, ?_⟩
    intro c more' same other
    cases same
    refine ⟨.nil, ?_⟩
    intro plain
    simpa [plain, other] using stops
  | case6 e more unescaped stops body ptr _ ih =>
    rw [‹scanItems quote more = (body, ptr)›] at ih
    refine ⟨by simpa using ih.1, ?_⟩
    intro c more' same other
    simp only [Bool.or_eq_true, Bool.not_eq_true', beq_iff_eq, not_or, Bool.not_eq_false] at stops
    exact ⟨.plain stops.1.1 (by simpa using unescaped) stops.2 (ih.2 c more' same other).1,
      (ih.2 c more' same other).2⟩

/-- A literal that is scanned is a body between two quotes. -/
theorem scanLiteral_ok {pos : Pos} {text ptr : List Char} (scanned : scanLiteral pos quote text = .ok (body, ptr)) :
    ∃ more, ptr = quote :: more ∧ text = body ++ quote :: more ∧ LiteralBody quote body := by
  have split := scanItems_split quote text
  simp only [scanLiteral] at scanned
  cases stop : (scanItems quote text).2 with
  | nil => simp [stop] at scanned
  | cons c more =>
    simp only [stop] at scanned
    split at scanned
    · cases scanned
    · next other =>
      split at scanned
      · cases scanned
      · next plain =>
        cases scanned
        obtain ⟨valid, same⟩ := split.2 c more stop (by simpa using other)
        obtain rfl := same (by simpa using plain)
        exact ⟨more, rfl, by rw [← stop]; exact split.1.symm, valid⟩

end Scan

/-- A token apart from its position and from the choice between a name and the keyword. -/
inductive Item where
  | punct (type : TokenType) (c : Char)
  | word (rng : List Char)
  | literal (body : List Char)
  | number (digits : List Char)
  deriving DecidableEq, Repr

namespace Item

def type (argCtxt : Bool) : Item → TokenType
  | punct type _ => type
  | word rng => wordType argCtxt rng
  | literal _ => .str
  | number _ => .num

def lex : Item → List Char
  | punct _ c => [c]
  | word rng => rng
  | literal body => body
  | number digits => digits

/-- The texts an item is written as; a literal may have either quote its body allows. -/
inductive Spelled : Item → List Char → Prop where
  | punct {c type} (char : ischartoken c = some type) : Spelled (.punct type c) [c]
  | word {c tail} (first : isident0 c = true) (later : ∀ d ∈ tail, isident d = true) :
      Spelled (.word (c :: tail)) (c :: tail)
  | literal {quote body} (isQuote : IsQuote quote) (valid : LiteralBody quote body) :
      Spelled (.literal body) (quote :: (body ++ [quote]))
  | number {digits} (numeral : IsNumeral digits) : Spelled (.number digits) digits

/-- The text behind an item does not go on with it. -/
def Bounded : Item → List Char → Prop
  | word _, rest => ∀ c ∈ rest.head?, isident c = false
  | number _, rest => ∀ c ∈ rest.head?, isdigit c = false
  | _, _ => True

end Item

/-- A text that begins with another character does not go on with a word or a number. -/
theorem head_free {p : Char → Bool} {c : Char} {text : List Char} (free : p c = false) :
    ∀ d ∈ (c :: text).head?, p d = false :=
  fun _ first => Option.some.inj first ▸ free

section Classes
variable {c : Char}

theorem isident0_iff : isident0 c = true ↔ isalpha c = true ∨ c = '_' := by simp [isident0]

/-- The characters of words as codes; 95 is the underscore. -/
theorem isident_codes : isident c = true ↔
    (65 ≤ c.toNat ∧ c.toNat ≤ 90 ∨ 97 ≤ c.toNat ∧ c.toNat ≤ 122) ∨ c.toNat = 95 ∨
      48 ≤ c.toNat ∧ c.toNat ≤ 57 := by
  have underscore : c = '_' ↔ c.toNat = 95 := by rw [← Char.toNat_inj]; rfl
  simp only [isident, isident0, Bool.or_eq_true, beq_iff_eq, isalpha_iff, isdigit_iff, underscore]
  exact or_assoc

theorem isident_isascii (ident : isident c = true) : isascii c = true := by
  have codes := isident_codes.mp ident
  rw [isascii_iff]
  omega

theorem isident0_isident (first : isident0 c = true) : isident c = true := by simp [isident, first]

theorem identTail_eq : (fun d => isascii d && isident d) = isident := by
  funext d
  cases ident : isident d with
  | false => simp
  | true => simp [isident_isascii ident]

/-- A test that all eight punctuation characters pass. -/
theorem ischartoken_all (p : Char → Bool) (all : ['(', ')', '[', ']', '<', '>', '.', '='].all p = true)
    {type : TokenType} (char : ischartoken c = some type) : p c = true := by
  have member : c ∈ ['(', ')', '[', ']', '<', '>', '.', '='] := by
    by_contra other
    simp only [List.mem_cons, List.not_mem_nil, or_false, not_or] at other
    simp [ischartoken, other] at char
  exact List.all_eq_true.mp all c member

/-- Neither punctuation, white space, a comment nor a quote starts with a character of a word. -/
theorem isident_not_special (ident : isident c = true) :
    ischartoken c = none ∧ isspace c = false ∧ c ≠ '#' ∧ ¬ IsQuote c := by
  refine ⟨?_, ?_, ?_, ?_⟩
  · cases char : ischartoken c with
    | none => rfl
    | some type =>
      have other : (!isident c) = true := ischartoken_all (fun d => !isident d) (by decide) char
      exact absurd ident (by simpa using other)
  · have codes := isident_codes.mp ident
    rw [Bool.eq_false_iff, ne_eq, isspace_iff]
    omega
  · rintro rfl
    exact absurd ident (by decide)
  · rintro (rfl | rfl) <;> exact absurd ident (by decide)

theorem isdigit_isident (digit : isdigit c = true) : isident c = true := by simp [isident, digit]

theorem isdigit_not_isident0 (digit : isdigit c = true) : isident0 c = false := by
  have codes := isdigit_iff.mp digit
  rw [Bool.eq_false_iff, ne_eq, isident0_iff, isalpha_iff]
  rintro (alpha | rfl)
  · omega
  · exact absurd codes (by decide)

/-- The first character of a spelled item is skipped by nothing. -/
theorem Item.Spelled.solid {item : Item} {w : List Char} (spelled : item.Spelled w) :
    ∃ c tail, w = c :: tail ∧ isspace c = false ∧ c ≠ '#' := by
  cases spelled with
  | @punct c type char =>
    have solid : (!isspace c && c != '#') = true :=
      ischartoken_all (fun d => !isspace d && d != '#') (by decide) char
    exact ⟨c, [], rfl, by simpa using solid⟩
  | @word c tail first later =>
    have special := isident_not_special (isident0_isident first)
    exact ⟨c, tail, rfl, special.2.1, special.2.2.1⟩
  | @literal quote body isQuote valid =>
    refine ⟨quote, body ++ [quote], rfl, ?_⟩
    rcases isQuote with rfl | rfl <;> decide
  | number numeral =>
    obtain ⟨nonempty, digits⟩ := numeral
    cases w with
    | nil => exact absurd rfl nonempty
    | cons c tail =>
      have special := isident_not_special (isdigit_isident (digits c (by simp)))
      exact ⟨c, tail, rfl, special.2.1, special.2.2.1⟩

end Classes

private theorem takeWhile_bounded {p : Char → Bool} {tail rest : List Char} (all : ∀ d ∈ tail, p d = true)
    (bounded : ∀ c ∈ rest.head?, p c = false) :
    (tail ++ rest).takeWhile p = tail ∧ (tail ++ rest).dropWhile p = rest := by
  have here : rest.takeWhile p = [] ∧ rest.dropWhile p = rest := by
    cases rest with
    | nil => simp
    | cons c rest => simp [bounded c (by simp)]
  rw [List.takeWhile_append_of_pos all, List.dropWhile_append_of_pos all, here.1, here.2]
  simp

/-- A spelled item at the start of the text is the next token. -/
theorem nextToken_spelled {item : Item} {w rest : List Char} (spelled : item.Spelled w) (bounded : item.Bounded rest)
    (argCtxt : Bool) (pos : Pos) :
    nextToken argCtxt ⟨w ++ rest, pos⟩ =
      .ok ({ pos, type := item.type argCtxt, lex := item.lex }, { rest, pos := pos.addSize w.length }) := by
  obtain ⟨c, tail, rfl, solid, other⟩ := spelled.solid
  unfold nextToken
  rw [List.cons_append, skipSpaces_solid solid other]
  cases spelled with
  | punct char => simp [char, Item.type, Item.lex]
  | word first later =>
    have special := isident_not_special (isident0_isident first)
    have ends := takeWhile_bounded later bounded
    simp [special.1, first, isident_isascii (isident0_isident first), identTail_eq, ends.1, ends.2, Item.type, Item.lex]
  | @literal quote body isQuote valid =>
    have special : ischartoken c = none ∧ (isascii c && isident0 c) = false ∧ (c == '\'' || c == '"') = true := by
      rcases isQuote with rfl | rfl <;> decide
    have stop : isPlainChar c = true ∧ c ≠ newline := by rcases isQuote with rfl | rfl <;> decide
    have scanned : scanLiteral pos c (body ++ c :: rest) = .ok (body, c :: rest) := by
      simp [scanLiteral, scanItems_body isQuote valid, stop]
    simp [special.1, special.2.1, special.2.2, scanned, Item.type, Item.lex]
  | number numeral =>
    obtain ⟨-, digits⟩ := numeral
    have first : isdigit c = true := digits c (by simp)
    have special := isident_not_special (isdigit_isident first)
    have ends := takeWhile_bounded (fun d (member : d ∈ tail) => digits d (by simp [member])) bounded
    have quotes : (c == '\'' || c == '"') = false := by simpa [IsQuote] using special.2.2.2
    simp [special.1, isdigit_not_isident0 first, quotes, first, ends.1, ends.2, Item.type, Item.lex]

/-- Every token but EOS is an item spelled at the place where the white space ends, and the call
goes on behind it. -/
theorem nextToken_ok {argCtxt : Bool} {s s' : Input} {tok : Token} (returned : nextToken argCtxt s = .ok (tok, s')) :
    (tok = { pos := (skipSpaces s).pos, type := .eos, lex := [] } ∧ (skipSpaces s).rest = [] ∧ s' = skipSpaces s) ∨
    ∃ item w, Item.Spelled item w ∧ (skipSpaces s).rest = w ++ s'.rest ∧
      tok = { pos := (skipSpaces s).pos, type := item.type argCtxt, lex := item.lex } ∧
      s'.pos = (skipSpaces s).pos.addSize w.length := by
  unfold nextToken at returned
  generalize skipSpaces s = t at returned
  obtain ⟨text, pos⟩ := t
  cases text with
  | nil =>
    cases returned
    exact .inl ⟨rfl, rfl, rfl⟩
  | cons c rest =>
    refine .inr ?_
    simp only at returned
    split at returned
    · next type char =>
      cases returned
      exact ⟨.punct type c, [c], .punct char, rfl, rfl, rfl⟩
    · split at returned
      · next first =>
        rw [identTail_eq] at returned
        cases returned
        have ident0 : isident0 c = true := by simp only [Bool.and_eq_true] at first; exact first.2
        refine ⟨.word (c :: rest.takeWhile isident), _, .word ident0 ?_, ?_, rfl, rfl⟩
        · exact fun d member => List.mem_takeWhile_imp member
        · simp
      · split at returned
        · next isQuote =>
          have isQuote : IsQuote c := by simpa [IsQuote] using isQuote
          split at returned
          · cases returned
          · cases returned
          · next body d more scanned =>
            obtain ⟨after, shape, text, valid⟩ := scanLiteral_ok scanned
            cases shape
            simp only [bne_self_eq_false, Bool.false_eq_true, if_false] at returned
            cases returned
            exact ⟨.literal body, c :: (body ++ [c]), .literal isQuote valid, by simp [text], rfl, by simp⟩
        · split at returned
          · next digit =>
            cases returned
            refine ⟨.number (c :: rest.takeWhile isdigit), _, .number ⟨by simp, ?_⟩, ?_, rfl, rfl⟩
            · intro d member
              cases member with
              | head => exact digit
              | tail _ later => exact List.mem_takeWhile_imp later
            · simp
          · cases returned

theorem nextToken_suffix {argCtxt : Bool} {s s' : Input} {tok : Token} (returned : nextToken argCtxt s = .ok (tok, s')) :
    s'.rest <:+ s.rest := by
  have skipped := skipSpaces_suffix s
  rcases nextToken_ok returned with ⟨-, -, ended⟩ | ⟨item, w, -, split, -⟩
  · rw [ended]
    exact skipped
  · rw [split] at skipped
    exact (List.suffix_append w _).trans skipped

theorem scanLiteral_error {pos : Pos} {quote : Char} {text : List Char} {stop : Stop}
    (scanned : scanLiteral pos quote text = .error stop) :
    ∃ msg, stop = .error ⟨pos.addSize (1 + (scanItems quote text).1.length), msg⟩ := by
  simp only [scanLiteral] at scanned
  split at scanned
  · cases scanned
    exact ⟨_, rfl⟩
  · split at scanned
    · cases scanned
      exact ⟨_, rfl⟩
    · split at scanned
      · cases scanned
        exact ⟨_, rfl⟩
      · cases scanned

/-- A call throws at a character that starts no token, or inside a literal: the assertions on a
scanned literal hold. -/
theorem nextToken_stops {argCtxt : Bool} {s : Input} {stop : Stop} (stopped : nextToken argCtxt s = .error stop) :
    (∃ c, stop = .error ⟨(skipSpaces s).pos, .unexpectChar c⟩) ∨
    ∃ quote text, IsQuote quote ∧ (skipSpaces s).rest = quote :: text ∧
      scanLiteral (skipSpaces s).pos quote text = .error stop := by
  unfold nextToken at stopped
  generalize skipSpaces s = t at stopped
  obtain ⟨text, pos⟩ := t
  cases text with
  | nil => cases stopped
  | cons c rest =>
    simp only at stopped
    split at stopped
    · cases stopped
    · split at stopped
      · cases stopped
      · split at stopped
        · next isQuote =>
          split at stopped
          · next stop' scanned =>
            cases stopped
            exact .inr ⟨c, rest, by simpa [IsQuote] using isQuote, rfl, scanned⟩
          · next body scanned =>
            obtain ⟨after, shape, -⟩ := scanLiteral_ok scanned
            cases shape
          · next body d more scanned =>
            obtain ⟨after, shape, -⟩ := scanLiteral_ok scanned
            cases shape
            simp at stopped
        · split at stopped
          · cases stopped
          · cases stopped
            exact .inl ⟨c, rfl⟩

theorem nextToken_error {argCtxt : Bool} {s : Input} {stop : Stop} (stopped : nextToken argCtxt s = .error stop) :
    ∃ err, stop = .error err := by
  rcases nextToken_stops stopped with ⟨c, rfl⟩ | ⟨quote, text, -, -, scanned⟩
  · exact ⟨_, rfl⟩
  · obtain ⟨msg, rfl⟩ := scanLiteral_error scanned
    exact ⟨_, rfl⟩

theorem Item.Spelled.lex_subset {item : Item} {w : List Char} (spelled : item.Spelled w) : item.lex ⊆ w := by
  cases spelled with
  | punct => exact List.Subset.refl _
  | word => exact List.Subset.refl _
  | literal => exact fun c member => List.mem_cons_of_mem _ (List.mem_append_left _ member)
  | number => exact List.Subset.refl _

theorem Item.Spelled.length_pos {item : Item} {w : List Char} (spelled : item.Spelled w) : 0 < w.length := by
  obtain ⟨c, tail, rfl, -⟩ := spelled.solid
  simp

/-- Every token but EOS shortens the text. -/
theorem nextToken_shrinks : Shrinks nextToken (fun s => s.rest.length) where
  step := by
    intro ctxt s tok s' returned
    have skipped := (skipSpaces_suffix s).length_le
    rcases nextToken_ok returned with ⟨isEos, -, ended⟩ | ⟨item, w, spelled, split, -⟩
    · simp [isEos, ended, skipped]
    · have some := spelled.length_pos
      rw [split, List.length_append] at skipped
      split <;> omega
  fueled := by
    intro ctxt s stopped
    obtain ⟨err, same⟩ := nextToken_error stopped
    cases same

end CxxpyTree
