import CxxpyTree.DebugFlag

/-! The flag `arg_ctxt`, by which the lexer tells the keyword `list` from a name. -/

namespace CxxpyTree

open Machine

variable {σ : Type}

/-- What the word `list` is behind the token `before`. -/
def listType (before : Token) : TokenType := if before.type = .dot then .name else .kwList

/-- `next_token` between two assertions, the source with the token returned last: `arg_ctxt` is on
exactly if that token is a dot, and the word `list` is a name exactly there. Dots are taken by
`parse_node_arg` alone. -/
def watched (next : TokenSource σ) : TokenSource (Token × σ) := fun argCtxt (before, src) =>
  if argCtxt ≠ (before.type == .dot) then .error .assertFailed
  else
    match next argCtxt src with
    | .error stop => .error stop
    | .ok (tok, src') =>
      if tok.type ≠ .str ∧ tok.lex = "list".toList ∧ tok.type ≠ listType before then .error .assertFailed
      else .ok (tok, (tok, src'))

section Calls
variable {argCtxt : Bool} {s s' : Input} {tok before last : Token} {view final : Token × Input} {eaten : List Token}

/-- Without quotes the text `list` is a word, and its type is up to the flag. -/
theorem nextToken_list (returned : nextToken argCtxt s = .ok (tok, s')) (unquoted : tok.type ≠ .str)
    (isList : tok.lex = "list".toList) : tok.type = if argCtxt then .name else .kwList := by
  rcases nextToken_ok returned with ⟨rfl, -⟩ | ⟨item, w, spelled, -, rfl, -⟩
  · exact absurd isList (by simp)
  · cases spelled with
    | punct => exact absurd isList (by simp [Item.lex])
    | @word c tail =>
      change wordType argCtxt (c :: tail) = _
      rw [show c :: tail = "list".toList from isList]
      cases argCtxt <;> decide
    | literal => exact absurd rfl unquoted
    | number numeral =>
      rw [show w = "list".toList from isList] at numeral
      exact absurd (numeral.2 'l' (by decide)) (by decide)

/-- Under the right flag the assertions hold. -/
theorem watched_nextToken : watched nextToken (before.type == .dot) (before, s) =
    match nextToken (before.type == .dot) s with
    | .error stop => .error stop
    | .ok (tok, s') => .ok (tok, (tok, s')) := by
  simp only [watched, ne_eq, not_true_eq_false, if_false]
  cases called : nextToken (before.type == .dot) s with
  | error stop => rfl
  | ok result =>
    obtain ⟨tok, s'⟩ := result
    dsimp only
    rw [if_neg]
    rintro ⟨unquoted, isList, other⟩
    apply other
    rw [nextToken_list called unquoted isList, listType]
    by_cases dot : before.type = .dot <;> simp [dot]

theorem watched_ok (returned : watched nextToken argCtxt view = .ok (tok, final)) :
    nextToken argCtxt view.2 = .ok (tok, final.2) ∧ final.1 = tok := by
  obtain ⟨before, s⟩ := view
  simp only [watched] at returned
  split at returned
  · cases returned
  · split at returned
    · cases returned
    · next called =>
      split at returned <;> cases returned
      exact ⟨called, rfl⟩

theorem watched_shrinks : Shrinks (watched nextToken) (fun view => view.2.rest.length) where
  step step := nextToken_shrinks.step (watched_ok step).1
  fueled := by
    rintro ctxt ⟨before, s⟩ stopped
    simp only [watched] at stopped
    split at stopped
    · cases stopped
    · split at stopped
      · next called =>
        cases stopped
        exact nextToken_shrinks.fueled called
      · split at stopped <;> cases stopped

theorem scans_of_watched (scans : Scans (watched nextToken) tok view eaten last final) (start : view.1 = tok) :
    Scans nextToken tok view.2 eaten last final.2 ∧ final.1 = last := by
  induction scans with
  | nil => exact ⟨.nil, start⟩
  | cons step _ ih =>
    obtain ⟨called, kept⟩ := watched_ok step
    obtain ⟨rest, ends⟩ := ih kept
    exact ⟨.cons called rest, ends⟩

end Calls

/-- A run between the assertions is the run without them. -/
theorem parse_watched (s : Input) {fuel : Nat} (enough : 2 * s.rest.length + 1 ≤ fuel) :
    Parser.result (Parser.parse (watched nextToken) fuel { src := ({}, s) }) =
      Parser.result (Parser.parse nextToken fuel { src := s }) := by
  have plain : Settled nextToken s (Parser.result (Parser.parse nextToken fuel { src := s })) :=
    (parse_outcome (parse_fueled nextToken_shrinks enough)).settled
  have checked : Settled (watched nextToken) ({}, s)
      (Parser.result (Parser.parse (watched nextToken) fuel { src := ({}, s) })) :=
    (parse_outcome (parse_fueled watched_shrinks enough)).settled
  generalize Parser.result (Parser.parse (watched nextToken) fuel { src := ({}, s) }) = res at checked ⊢
  apply plain.unique
  obtain ⟨eaten, last, ⟨before, final⟩, scans, at_⟩ := checked
  obtain ⟨scans', rfl⟩ := scans_of_watched scans rfl
  refine ⟨eaten, before, final, scans', ?_⟩
  cases at_ with
  | decided again inside ended => exact .decided again inside ended
  | starved step goesOn again =>
    rw [watched_nextToken] at step
    refine .starved ?_ goesOn again
    cases called : nextToken (before.type == .dot) final <;> rw [called] at step <;> cases step
    rfl

section Off
variable {next : TokenSource σ}

/-- With `arg_ctxt` off before it, the program leaves it off, by a return or by an error. -/
def KeepsOff (x : Parser σ α) : Prop := Keeps (fun s => s.argCtxt = false) x

namespace KeepsOff

theorem bind {x : Parser σ α} {f : α → Parser σ β} (first : KeepsOff x) (rest : ∀ a, KeepsOff (f a)) :
    KeepsOff (x >>= f) := Keeps.bind first rest

theorem pure {a : α} : KeepsOff (Pure.pure a : Parser σ α) := Keeps.pure

theorem outOfFuel : KeepsOff (throw .outOfFuel : Parser σ α) := Keeps.throw

theorem nextToken : KeepsOff (Parser.nextToken next) := fun _ off =>
  wp_nextToken (fun _ _ _ => off) (fun _ _ => off)

theorem eatToken : KeepsOff (Parser.eatToken next) :=
  Keeps.bind (.modify fun _ off => off) fun _ => nextToken

theorem needToken {type : TokenType} : KeepsOff (Parser.needToken next type) :=
  .bind (fun _ off => wp_checkToken (fun _ => off) (fun _ => off)) fun _ => eatToken

theorem newNode {wrap : α → AstNode} {node : α} : KeepsOff (Parser.newNode wrap node : Parser σ α) := fun _ off => off

theorem prevTok : KeepsOff (Parser.prevTok : Parser σ Token) := fun _ off => off

theorem missedToken {func : String} : KeepsOff (Parser.missedToken func : Parser σ α) := fun _ off => off

theorem peek {types : List TokenType} {x y : Parser σ α} (first : KeepsOff x) (second : KeepsOff y) :
    KeepsOff (do if ← Parser.peekToken types then x else y) :=
  Keeps.bind (fun _ off => off) fun _ => .ite first second

/-- The methods of the rules that are a single word. -/
theorem word {type : TokenType} {wrap : α → AstNode} {make : CStr → α} : KeepsOff (do
    Parser.needToken next type
    Parser.newNode wrap (make (← Parser.prevTok).lex)) :=
  .bind needToken fun _ => .bind prevTok fun _ => newNode

/-- The guard switches the flag off at its end, whatever its body has done and however it has ended. -/
theorem argCtxtGuard {x : Parser σ α} : KeepsOff (Parser.argCtxtGuard x) := by
  intro s _
  apply wp_guarded.mpr
  unfold wp
  cases x { s with argCtxt := true } <;> rfl

end KeepsOff

theorem parseNodeArg_keepsOff (fuel : Nat) : KeepsOff (Parser.parseNodeArg next fuel) := by
  cases fuel with
  | zero => exact .outOfFuel
  | succ fuel =>
    rw [Parser.parseNodeArg]
    exact .argCtxtGuard

theorem parseNodeArgList_keepsOff (fuel : Nat) : KeepsOff (Parser.parseNodeArgList next fuel) := by
  induction fuel with
  | zero => exact .outOfFuel
  | succ fuel ih =>
    rw [Parser.parseNodeArgList]
    apply KeepsOff.peek
    · apply KeepsOff.bind (parseNodeArg_keepsOff fuel)
      intro arg
      exact .bind ih fun _ => .pure
    · exact .pure

theorem parseNodeArgs_keepsOff (fuel : Nat) : KeepsOff (Parser.parseNodeArgs next fuel) := by
  cases fuel with
  | zero => exact .outOfFuel
  | succ fuel =>
    rw [Parser.parseNodeArgs]
    apply KeepsOff.peek
    · exact .bind (parseNodeArgList_keepsOff fuel) fun _ => .newNode
    · exact .peek (.bind .word fun _ => .newNode) .missedToken

theorem parseTreeNode_keepsOff (fuel : Nat) : KeepsOff (Parser.parseTreeNode next fuel) := by
  cases fuel with
  | zero => exact .outOfFuel
  | succ fuel =>
    rw [Parser.parseTreeNode]
    apply KeepsOff.bind .word
    intro name
    apply KeepsOff.bind .needToken
    intro _
    apply KeepsOff.bind (parseNodeArgs_keepsOff fuel)
    intro args
    exact .bind .needToken fun _ => .newNode

theorem parse_keepsOff (fuel : Nat) : KeepsOff (Parser.parse next fuel) := by
  apply KeepsOff.bind .nextToken
  intro _
  apply KeepsOff.bind (.bind (parseTreeNode_keepsOff fuel) fun _ => .newNode)
  intro tree
  exact .bind (fun _ off => wp_checkToken (fun _ => off) (fun _ => off)) fun _ => .pure

end Off

/-- On every text each call of `next_token`, the one that throws included, passes the assertions on
`arg_ctxt` and on the word `list`, and the flag is off when the parse has ended. -/
theorem list_keyword_in_context (type : InputType) (input : List Char) :
    let src := Input.init type input
    let fuel := 2 * src.rest.length + 8
    Parser.result (Parser.parse (watched nextToken) fuel { src := ({}, src) }) = parseText type input ∧
    parseText type input ≠ .error .assertFailed ∧
    (finalState (Parser.parse nextToken fuel { src })).argCtxt = false := by
  intro src fuel
  refine ⟨parse_watched src (by omega), ?_, ?_⟩
  · rcases @parseText_stops type input with ⟨tree, outcome⟩ | ⟨err, outcome⟩ <;> rw [outcome] <;> exact nofun
  · have run : wp (Parser.parse nextToken fuel) (fun _ s => s.argCtxt = false) (fun _ s => s.argCtxt = false) { src } :=
      parse_keepsOff fuel _ rfl
    unfold wp at run
    cases outcome : Parser.parse nextToken fuel { src } <;> rw [outcome] at run <;> exact run

end CxxpyTree
