import CxxpyTree.LexerRun

/-! Runs of the lexer: the ranges it has passed over make up the text it has used, and every
position it has stored is counted from the start of that text. -/

namespace CxxpyTree

/-- The line and the column of the byte behind `before`: the newlines before it, and its distance
from the last one. -/
def Pos.behind (before : List Char) : Pos where
  line := 1 + before.count newline
  col := 1 + (before.reverse.takeWhile (· != newline)).length

/-- What one call of `next_token` went through: the range that `skip_spaces` passed over, the token
and the range from its first byte to the place where the next call starts. -/
structure Lexeme where
  skipped : List Char
  token : Token
  span : List Char
  deriving DecidableEq, Repr

def Lexeme.source (lexeme : Lexeme) : List Char := lexeme.skipped ++ lexeme.span

/-- A token stands in the source as its text, a literal between two quotes. -/
def Token.Spans (tok : Token) (span : List Char) : Prop :=
  if tok.type = .str then ∃ quote, IsQuote quote ∧ span = quote :: (tok.lex ++ [quote]) else span = tok.lex

/-- The bytes from `start` to `stop`, two ends of the same text. -/
def bytesBetween (start stop : List Char) : List Char := start.take (start.length - stop.length)

/-- The lexer called once for each value of `arg_ctxt`, until an error. -/
def lexCalls : List Bool → Input → Except Stop (List Lexeme × Input)
  | [], s => .ok ([], s)
  | argCtxt :: flags, s =>
    match nextToken argCtxt s with
    | .error stop => .error stop
    | .ok (token, s') =>
      match lexCalls flags s' with
      | .error stop => .error stop
      | .ok (lexemes, final) =>
        let skipped := bytesBetween s.rest (skipSpaces s).rest
        let span := bytesBetween (skipSpaces s).rest s'.rest
        .ok ({ skipped, token, span } :: lexemes, final)

/-- From the state `s` behind the text `before`, the calls have led to `s'` with nothing lost. -/
structure Lossless (before : List Char) (s : Input) (lexemes : List Lexeme) (s' : Input) : Prop where
  consumed : s.rest = lexemes.flatMap Lexeme.source ++ s'.rest
  spans : ∀ lexeme ∈ lexemes, lexeme.token.Spans lexeme.span
  located : ∀ done lexeme later, lexemes = done ++ lexeme :: later →
    lexeme.token.pos = Pos.behind (before ++ done.flatMap Lexeme.source ++ lexeme.skipped)
  pos : s'.pos = Pos.behind (before ++ lexemes.flatMap Lexeme.source)

section Positions
variable {before text : List Char}

theorem Pos.behind_eq (before : List Char) : Pos.behind before = ({} : Pos).addRange before := by
  by_cases inside : newline ∈ before
  · simp [Pos.behind, Pos.addRange, inside, Nat.add_comm]
  · have whole : before.reverse.takeWhile (· != newline) = before.reverse := by
      apply List.takeWhile_eq_self_iff.mpr
      intro c member
      simp only [bne_iff_ne, ne_eq]
      rintro rfl
      exact inside (List.mem_reverse.mp member)
    simp [Pos.behind, Pos.addRange, inside, whole]

@[simp] theorem Pos.behind_nil : Pos.behind [] = {} := rfl

theorem Pos.behind_append : Pos.behind (before ++ text) = (Pos.behind before).addRange text := by
  rw [Pos.behind_eq, Pos.behind_eq, Pos.addRange_append]

/-- Inside a line the column is counted on. -/
theorem Pos.addRange_line (p : Pos) (inside : newline ∉ text) : p.addRange text = p.addSize text.length := by
  simp [Pos.addRange, Pos.addSize, inside, List.count_eq_zero.mpr inside]

end Positions

theorem bytesBetween_append (text rest : List Char) : bytesBetween (text ++ rest) rest = text := by
  simp [bytesBetween]

theorem bytesBetween_suffix {start stop : List Char} (suffix : stop <:+ start) :
    bytesBetween start stop ++ stop = start := by
  obtain ⟨text, rfl⟩ := suffix
  rw [bytesBetween_append]

theorem skipSpaces_pos (s : Input) :
    (skipSpaces s).pos = s.pos.addRange (bytesBetween s.rest (skipSpaces s).rest) := rfl

theorem LiteralBody.one_line {quote : Char} {body : List Char} (valid : LiteralBody quote body) : newline ∉ body := by
  induction valid with
  | nil => simp
  | plain plain _ _ _ ih =>
    rw [List.mem_cons, not_or]
    refine ⟨?_, ih⟩
    rintro rfl
    exact absurd plain (by decide)
  | escape inside _ ih =>
    rw [List.mem_cons, List.mem_cons, not_or, not_or]
    exact ⟨by decide, fun same => inside same.symm, ih⟩

/-- No token is continued on another line. -/
theorem Item.Spelled.one_line {item : Item} {w : List Char} (spelled : item.Spelled w) : newline ∉ w := by
  cases spelled with
  | @punct c type char =>
    have other : (c != newline) = true := ischartoken_all (fun d => d != newline) (by decide) char
    simp only [List.mem_singleton]
    rintro rfl
    exact absurd other (by decide)
  | @word c tail first later =>
    rw [List.mem_cons, not_or]
    refine ⟨?_, fun member => absurd (later _ member) (by decide)⟩
    rintro rfl
    exact absurd first (by decide)
  | @literal quote body isQuote valid =>
    have other : newline ≠ quote := by rcases isQuote with rfl | rfl <;> decide
    simp [other, valid.one_line]
  | number numeral => exact fun member => absurd (numeral.2 _ member) (by decide)

theorem wordType_ne_str (argCtxt : Bool) (rng : List Char) : wordType argCtxt rng ≠ .str := by
  unfold wordType
  repeat' split
  all_goals decide

theorem ischartoken_ne_str {c : Char} {type : TokenType} (char : ischartoken c = some type) : type ≠ .str := by
  rintro rfl
  unfold ischartoken at char
  repeat' split at char
  all_goals cases char

theorem Token.Spans.plain {tok : Token} (other : tok.type ≠ .str) : tok.Spans tok.lex := by
  unfold Token.Spans
  rw [if_neg other]

theorem Token.Spans.quoted {tok : Token} {quote : Char} (isStr : tok.type = .str) (isQuote : IsQuote quote) :
    tok.Spans (quote :: (tok.lex ++ [quote])) := by
  unfold Token.Spans
  rw [if_pos isStr]
  exact ⟨quote, isQuote, rfl⟩

theorem Item.Spelled.spans {item : Item} {w : List Char} (spelled : item.Spelled w) (argCtxt : Bool) (pos : Pos) :
    Token.Spans { pos, type := item.type argCtxt, lex := item.lex } w := by
  cases spelled with
  | punct char => exact .plain (ischartoken_ne_str char)
  | word => exact .plain (wordType_ne_str argCtxt _)
  | literal isQuote => exact .quoted rfl isQuote
  | number => exact .plain (nomatch ·)

/-- One call: it passes over layout and over the span of its token, and it counts both. -/
theorem nextToken_lossless {argCtxt : Bool} {before : List Char} {s s' : Input} {tok : Token}
    (located : s.pos = Pos.behind before) (returned : nextToken argCtxt s = .ok (tok, s')) :
    let skipped := bytesBetween s.rest (skipSpaces s).rest
    let span := bytesBetween (skipSpaces s).rest s'.rest
    s.rest = skipped ++ span ++ s'.rest ∧ tok.Spans span ∧ tok.pos = Pos.behind (before ++ skipped) ∧
      s'.pos = Pos.behind (before ++ skipped ++ span) := by
  intro skipped span
  have passed : skipped ++ (skipSpaces s).rest = s.rest := bytesBetween_suffix (skipSpaces_suffix s)
  have start : (skipSpaces s).pos = Pos.behind (before ++ skipped) := by
    rw [skipSpaces_pos, located, Pos.behind_append]
  rcases nextToken_ok returned with ⟨rfl, ended, rfl⟩ | ⟨item, w, spelled, split, rfl, counted⟩
  · have empty : span = [] := by simp [span, bytesBetween]
    rw [empty, List.append_nil, List.append_nil]
    exact ⟨passed.symm, .plain (nomatch ·), start, start⟩
  · have exact_ : span = w := by
      change bytesBetween (skipSpaces s).rest s'.rest = w
      rw [split, bytesBetween_append]
    rw [exact_, List.append_assoc, ← split]
    refine ⟨passed.symm, spelled.spans argCtxt _, start, ?_⟩
    rw [counted, ← Pos.addRange_line _ spelled.one_line, start, ← Pos.behind_append]

theorem Lossless.nil {before : List Char} {s : Input} (located : s.pos = Pos.behind before) : Lossless before s [] s where
  consumed := rfl
  spans := by simp
  located := by simp
  pos := by simpa using located

theorem Lossless.cons {before : List Char} {s mid s' : Input} {lexeme : Lexeme} {lexemes : List Lexeme}
    (text : s.rest = lexeme.source ++ mid.rest) (spans : lexeme.token.Spans lexeme.span)
    (located : lexeme.token.pos = Pos.behind (before ++ lexeme.skipped))
    (rest : Lossless (before ++ lexeme.source) mid lexemes s') : Lossless before s (lexeme :: lexemes) s' where
  consumed := by rw [text, rest.consumed, List.flatMap_cons, List.append_assoc]
  spans := List.forall_mem_cons.mpr ⟨spans, rest.spans⟩
  located := by
    intro done other later same
    cases done with
    | nil =>
      cases same
      simpa using located
    | cons first done =>
      cases same
      rw [rest.located done other later rfl, List.flatMap_cons, List.append_assoc before]
  pos := by rw [rest.pos, List.flatMap_cons, List.append_assoc]

/-- The run lemma: what every call keeps, the calls one after the other keep. -/
theorem lexCalls_lossless : ∀ (flags : List Bool) {before : List Char} {s s' : Input} {lexemes : List Lexeme},
    s.pos = Pos.behind before → lexCalls flags s = .ok (lexemes, s') → Lossless before s lexemes s'
  | [], _, s, s', _, located, returned => by
    cases returned
    exact .nil located
  | argCtxt :: flags, before, s, s', _, located, returned => by
    unfold lexCalls at returned
    split at returned
    next => cases returned
    next token mid step =>
      obtain ⟨text, spans, first, counted⟩ := nextToken_lossless located step
      split at returned
      next => cases returned
      next lexemes final rest =>
        cases returned
        apply Lossless.cons text spans first
        apply lexCalls_lossless flags _ rest
        rw [counted, List.append_assoc]
        rfl

theorem lexCalls_error : ∀ (flags : List Bool) {s : Input} {stop : Stop}, lexCalls flags s = .error stop →
    ∃ err, stop = .error err
  | [], _, _, stopped => by cases stopped
  | argCtxt :: flags, s, stop, stopped => by
    unfold lexCalls at stopped
    split at stopped
    next first =>
      cases stopped
      exact nextToken_error first
    next =>
      split at stopped
      next rest =>
        cases stopped
        exact lexCalls_error flags rest
      next => cases stopped

/-- Every call but one that returns EOS uses up text, so the text bounds the number of calls. -/
theorem lexCalls_ends : ∀ (flags : List Bool) (s : Input), s.rest.length < flags.length →
    (∃ err, lexCalls flags s = .error (.error err)) ∨
      ∃ lexemes s', lexCalls flags s = .ok (lexemes, s') ∧ ∃ lexeme ∈ lexemes, lexeme.token.type = .eos
  | [], _, short => absurd short (Nat.not_lt_zero _)
  | argCtxt :: flags, s, short => by
    cases whole : lexCalls (argCtxt :: flags) s with
    | error stop =>
      obtain ⟨err, rfl⟩ := lexCalls_error _ whole
      exact .inl ⟨err, rfl⟩
    | ok result =>
      refine .inr ⟨result.1, result.2, rfl, ?_⟩
      unfold lexCalls at whole
      split at whole
      next => cases whole
      next token mid step =>
        have shorter := nextToken_shrinks.step step
        split at whole
        next => cases whole
        next lexemes final rest =>
          cases whole
          by_cases isEos : token.type = .eos
          · exact ⟨_, List.mem_cons_self, isEos⟩
          · rw [if_neg isEos] at shorter
            rw [List.length_cons] at short
            rcases lexCalls_ends flags mid (by omega) with ⟨err, stopped⟩ | ⟨lexemes', final', again, lexeme, member, found⟩
            · rw [rest] at stopped
              cases stopped
            · rw [rest] at again
              cases again
              exact ⟨lexeme, List.mem_cons_of_mem _ member, found⟩

section Theorem
variable (type : InputType) (input : List Char) (flags : List Bool)

/-- Along every run of the lexer over a text nothing is lost, every position is counted right and
every call moves on, until EOS or an error comes after at most one call more than there are bytes. -/
theorem lexer_lossless :
    (∀ lexemes s', lexCalls flags (Input.init type input) = .ok (lexemes, s') →
      Lossless [] (Input.init type input) lexemes s' ∧
      ∀ argCtxt token next, nextToken argCtxt s' = .ok (token, next) → token.type ≠ .eos →
        ∃ passed, passed ≠ [] ∧ s'.rest = passed ++ next.rest) ∧
    ((Input.init type input).rest.length < flags.length →
      (∃ err, lexCalls flags (Input.init type input) = .error (.error err)) ∨
        ∃ lexemes s', lexCalls flags (Input.init type input) = .ok (lexemes, s') ∧
          ∃ lexeme ∈ lexemes, lexeme.token.type = .eos) := by
  refine ⟨?_, lexCalls_ends flags _⟩
  intro lexemes s' returned
  refine ⟨lexCalls_lossless flags rfl returned, ?_⟩
  intro argCtxt token next step other
  obtain ⟨passed, split⟩ := nextToken_suffix step
  refine ⟨passed, ?_, split.symm⟩
  rintro rfl
  have shorter := nextToken_shrinks.step step
  rw [if_neg other, ← split, List.nil_append] at shorter
  omega

end Theorem

/-- A name, a parenthesis, a literal on the next line and a comment that ends the input. -/
theorem lexer_lossless_two_lines :
    ∃ lexemes s', lexCalls [false, true, false, false] (Input.init .text "f(\n 'x' # end".toList) = .ok (lexemes, s') ∧
      Lossless [] (Input.init .text "f(\n 'x' # end".toList) lexemes s' :=
  ⟨[⟨[], ⟨⟨1, 1⟩, .name, ['f']⟩, ['f']⟩, ⟨[], ⟨⟨1, 2⟩, .openParen, ['(']⟩, ['(']⟩,
      ⟨"\n ".toList, ⟨⟨2, 2⟩, .str, ['x']⟩, "'x'".toList⟩, ⟨" # end".toList, ⟨⟨2, 11⟩, .eos, []⟩, []⟩],
    ⟨[], ⟨2, 11⟩⟩, by decide +kernel,
    ((lexer_lossless .text "f(\n 'x' # end".toList [false, true, false, false]).1 _ _ (by decide +kernel)).1⟩

end CxxpyTree
