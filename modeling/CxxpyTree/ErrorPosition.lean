import CxxpyTree.DebugFlag
import CxxpyTree.VerboseError
import Mathlib.Data.List.TakeDrop

/-! Every error of the lexer and of the parser stands at a place of the text, so that `verror` can
show the line. -/

namespace CxxpyTree

/-- The position is that of a place in the text. -/
def Pos.Within (text : List Char) (pos : Pos) : Prop := ∃ before rest, text = before ++ rest ∧ pos = Pos.behind before

/-- The lexer stands at a place of the text and counts it right. -/
def Input.Within (text : List Char) (s : Input) : Prop := ∃ before, text = before ++ s.rest ∧ s.pos = Pos.behind before

section Lexer
variable {text : List Char} {argCtxt : Bool} {s s' : Input} {tok : Token} {err : ParserError}

theorem nextToken_within (within : s.Within text) (returned : nextToken argCtxt s = .ok (tok, s')) :
    tok.pos.Within text ∧ s'.Within text := by
  obtain ⟨before, rfl, located⟩ := within
  obtain ⟨passed, -, start, counted⟩ := nextToken_lossless located returned
  have whole : before ++ s.rest = before ++ bytesBetween s.rest (skipSpaces s).rest ++
      (bytesBetween (skipSpaces s).rest s'.rest ++ s'.rest) := by
    rw [List.append_assoc, ← List.append_assoc (bytesBetween _ _), ← passed]
  refine ⟨⟨_, _, whole, start⟩, ⟨_, ?_, counted⟩⟩
  rw [whole, List.append_assoc _ _ s'.rest]

theorem scanItems_line (quote : Char) (text : List Char) : newline ∉ (scanItems quote text).1 := by
  rcases scanItems_passed quote text with items | ⟨items, valid, same, -⟩
  · exact items.one_line
  · rw [same, List.mem_append, not_or]
    exact ⟨valid.one_line, by decide⟩

/-- What the lexer throws stands at the character in question, also inside a literal. -/
theorem nextToken_error_within (within : s.Within text) (stopped : nextToken argCtxt s = .error (.error err)) :
    err.pos.Within text := by
  obtain ⟨before, rfl, located⟩ := within
  have passed := bytesBetween_suffix (skipSpaces_suffix s)
  have start : (skipSpaces s).pos = Pos.behind (before ++ bytesBetween s.rest (skipSpaces s).rest) := by
    rw [skipSpaces_pos, located, Pos.behind_append]
  rcases nextToken_stops stopped with ⟨c, same⟩ | ⟨quote, rest, isQuote, split, scanned⟩
  · cases same
    exact ⟨_, _, by rw [List.append_assoc, passed], start⟩
  · obtain ⟨msg, same⟩ := scanLiteral_error scanned
    cases same
    have line : newline ∉ quote :: (scanItems quote rest).1 := by
      rw [List.mem_cons, not_or]
      exact ⟨by rcases isQuote with rfl | rfl <;> decide, scanItems_line quote rest⟩
    refine ⟨before ++ bytesBetween s.rest (skipSpaces s).rest ++ quote :: (scanItems quote rest).1, (scanItems quote rest).2, ?_, ?_⟩
    · rw [List.append_assoc, List.append_assoc, List.cons_append, (scanItems_split quote rest).1, ← split, passed]
    · rw [Pos.behind_append, ← start, Pos.addRange_line _ line, List.length_cons, Nat.add_comm]

end Lexer

section Parser
variable {text : List Char} {tok last : Token} {s s' : Input} {eaten : List Token}

/-- Along a scan the lexer and the current token stay within the text. -/
theorem scans_within (scans : Scans nextToken tok s eaten last s') (within : s.Within text) (token : tok.pos.Within text) :
    s'.Within text ∧ last.pos.Within text := by
  induction scans with
  | nil => exact ⟨within, token⟩
  | cons step _ ih =>
    obtain ⟨first, rest⟩ := nextToken_within within step
    exact ih rest first

/-- Every error of a parse stands within its text. -/
theorem parseText_error_within {type : InputType} {input : List Char} {err : ParserError}
    (failed : parseText type input = .error (.error err)) : err.pos.Within (Input.init type input).rest := by
  have within : (Input.init type input).Within (Input.init type input).rest := ⟨[], rfl, rfl⟩
  have first : ({} : Token).pos.Within (Input.init type input).rest := ⟨[], _, rfl, rfl⟩
  have outcome : Outcome nextToken (Input.init type input) parseTokens (parseText type input) :=
    parse_outcome (parse_fueled nextToken_shrinks (by omega))
  rw [failed] at outcome
  cases outcome with
  | stuck scans => exact (scans_within scans within first).2
  | refused scans =>
    -- the number stands behind the tokens before it
    obtain ⟨mid, src', left, right⟩ := scans.split_append
    cases right with
    | cons step => exact (scans_within left within first).2
  | starved scans step => exact nextToken_error_within (scans_within scans within first).1 step

/-- Whatever error a parse ends with, `verror` can be told its position: none of its assertions
fails, and the line that it shows lies within the input. -/
theorem verror_asserts {type : InputType} {input : List Char} {err : ParserError}
    (failed : parseText type input = .error (.error err)) (inputName : CStr) :
    VerrorAsserts (Input.init type input).rest err.pos ∧
      ∃ thrown, verror true inputName (Input.init type input).rest err.pos err.msg = .ok thrown := by
  obtain ⟨before, rest, whole, located⟩ := parseText_error_within failed
  obtain ⟨head, left, right, tail, around, rfl, rfl⟩ := Lines.exists_around newline before rest
  rw [whole, located]
  exact ⟨verrorAsserts_around around, _, verror_around around inputName err.msg⟩

/-- A character that starts no token, behind a tab in the second line. -/
theorem verror_asserts_char : VerrorAsserts (Input.init .text "\n\t$".toList).rest ⟨2, 2⟩ ∧
    ∃ thrown, verror true "<text>".toList (Input.init .text "\n\t$".toList).rest ⟨2, 2⟩ (.unexpectChar '$') = .ok thrown := by
  have failed : parseText .text "\n\t$".toList = .error (.error ⟨⟨2, 2⟩, .unexpectChar '$'⟩) := by rfl
  exact verror_asserts failed "<text>".toList

/-- The line of a position, without its newline. -/
def sourceLine (text : List Char) (pos : Pos) : List Char := ((text.splitOn newline)[pos.line - 1]?).getD []

/-- The two messages that show an error, each with the head of the error message. -/
def caretMsgs (inputName : CStr) (text : List Char) (pos : Pos) : List (List Char) :=
  let line := sourceLine text pos
  [errorHead inputName pos ++ escaped line,
    errorHead inputName pos ++ (List.replicate (escaped (line.take (pos.col - 1))).length ' ' ++ ['^'])]

theorem vformat_eq_self {text : List Char} : vformat text = text ↔ text.length ≤ 254 := List.take_eq_self_iff _

theorem isBytes_text {type : InputType} {input : List Char} (bytes : IsBytes input) : IsBytes (Input.init type input).rest := by
  intro c member
  have inside := trimNewline_subset _ member
  cases type with
  | text => exact bytes c (List.takeWhile_sublist _ |>.subset inside)
  | file => exact bytes c inside

/-- The messages of an error show its line and its place exactly if both fit into the buffer. -/
theorem caret_iff {type : InputType} {input : List Char} (bytes : IsBytes input) {err : ParserError}
    (failed : parseText type input = .error (.error err)) (inputName : CStr) :
    let text := (Input.init type input).rest
    let line := sourceLine text err.pos
    (∃ thrown, verror true inputName text err.pos err.msg = .ok thrown ∧ thrown.msgs = caretMsgs inputName text err.pos) ↔
      (errorHead inputName err.pos).length + (line.map escapedSize).sum ≤ 254 ∧
      (errorHead inputName err.pos).length + ((line.take (err.pos.col - 1)).map escapedSize).sum + 1 ≤ 254 := by
  obtain ⟨before, rest, whole, located⟩ := parseText_error_within failed
  obtain ⟨head, left, right, tail, around, rfl, rfl⟩ := Lines.exists_around newline before rest
  intro text line
  have place := behind_around around.head around.left
  have whole' : text = head ++ left ++ (right ++ tail) := whole
  have isLine : line = left ++ right := by
    simp only [line, sourceLine, whole', located, place, Nat.add_sub_cancel_left, around.line, Option.getD_some]
  have isLeft : line.take (err.pos.col - 1) = left := by
    rw [isLine, located, place, Nat.add_sub_cancel_left, List.take_left]
  have bytesLine : IsBytes line := by
    intro c member
    apply isBytes_text bytes c
    rw [whole]
    rw [isLine] at member
    rcases List.mem_append.mp member with onLeft | onRight
    · exact List.mem_append_left _ (List.mem_append_right _ onLeft)
    · exact List.mem_append_right _ (List.mem_append_left _ onRight)
  have bytesLeft : IsBytes left := fun c member => bytesLine c (isLine ▸ List.mem_append_left _ member)
  have shown := verror_around around inputName err.msg
  rw [← whole', ← located, corrected_column bytesLeft, ← isLine] at shown
  simp only [shown, Except.ok.injEq, exists_eq_left', caretMsgs, List.cons.injEq, and_true]
  change vformat (_ ++ escaped line) = _ ++ escaped line ∧
    vformat (_ ++ (List.replicate (escaped left).length ' ' ++ ['^'])) =
      _ ++ (List.replicate (escaped (line.take (err.pos.col - 1))).length ' ' ++ ['^']) ↔ _
  rw [isLeft, vformat_eq_self, vformat_eq_self, ← length_escaped bytesLine, ← length_escaped bytesLeft]
  simp only [List.length_append, List.length_replicate, List.length_singleton, Nat.add_assoc]

theorem parseText_of_stop {type : InputType} {input : List Char} {stop : Stop}
    (stops : nextToken false (Input.init type input) = .error stop) : parseText type input = .error stop := by
  have first : Parser.nextToken nextToken ({ src := Input.init type input } : ParserState Input) =
      .error stop { src := Input.init type input } := by
    simp only [Parser.nextToken, Machine.get_bind, stops]
    rfl
  unfold parseText Parser.parse
  dsimp only
  rw [Machine.bind_of_error first]
  rfl

/-- No message is longer than what the buffer of `vformat` takes. -/
theorem verror_bounded {verboseError : Bool} {inputName : CStr} {input : List Char} {pos : Pos} {msg : Message} {thrown : Thrown}
    (shown : verror verboseError inputName input pos msg = .ok thrown) : ∀ line ∈ thrown.msgs, line.length ≤ 254 := by
  have bounded : ∀ text, (vformat text).length ≤ 254 := fun text => List.length_take_le _ _
  unfold verror at shown
  cases verboseError with
  | false =>
    cases shown
    exact nofun
  | true =>
    by_cases asserts : VerrorAsserts input pos
    · rw [if_pos rfl, if_neg (not_not.mpr asserts)] at shown
      obtain ⟨⟨quo, n⟩, -, same⟩ := Machine.except_bind_eq_ok.mp shown
      cases same
      exact List.forall_mem_cons.mpr ⟨bounded _, List.forall_mem_singleton.mpr (bounded _)⟩
    · simp [asserts] at shown
      cases shown

/-- The tab in front of the character is shown as an escape, and the caret stands below the character. -/
theorem caret_tab : ∃ thrown, verror true "<text>".toList (Input.init .text "\n\t$".toList).rest ⟨2, 2⟩ (.unexpectChar '$') = .ok thrown ∧
    thrown.msgs = caretMsgs "<text>".toList (Input.init .text "\n\t$".toList).rest ⟨2, 2⟩ := by
  have failed : parseText .text "\n\t$".toList = .error (.error ⟨⟨2, 2⟩, .unexpectChar '$'⟩) := by rfl
  have bytes : IsBytes "\n\t$".toList := by decide
  exact (caret_iff bytes failed "<text>".toList).mpr (by decide +kernel)

/-- Of a line of 255 characters the message shows 242. -/
theorem caret_long_line : ∃ input err, IsBytes input ∧ parseText .text input = .error (.error err) ∧
    ¬ ∃ thrown, verror true "<text>".toList (Input.init .text input).rest err.pos err.msg = .ok thrown ∧
      thrown.msgs = caretMsgs "<text>".toList (Input.init .text input).rest err.pos := by
  have text : (Input.init .text (List.replicate 255 '$')).rest = '$' :: List.replicate 254 '$' := by decide +kernel
  have stops : nextToken false (Input.init .text (List.replicate 255 '$')) = .error (.error ⟨⟨1, 1⟩, .unexpectChar '$'⟩) := by
    rw [show Input.init .text (List.replicate 255 '$') = ⟨'$' :: List.replicate 254 '$', {}⟩ from congrArg (Input.mk · {}) text]
    unfold nextToken
    rw [skipSpaces_solid (by decide) (by decide)]
    rfl
  refine ⟨List.replicate 255 '$', ⟨⟨1, 1⟩, .unexpectChar '$'⟩, ?_, ?_, ?_⟩
  · exact fun c member => by rw [List.eq_of_mem_replicate member]; decide
  · exact parseText_of_stop stops
  · rintro ⟨thrown, shown, msgs⟩
    have first : ∃ msg ∈ thrown.msgs, 254 < msg.length := by
      rw [msgs]
      exact ⟨_, List.mem_cons_self, by decide +kernel⟩
    obtain ⟨msg, member, long⟩ := first
    exact absurd (verror_bounded shown msg member) (Nat.not_le_of_lt long)

end Parser

end CxxpyTree
