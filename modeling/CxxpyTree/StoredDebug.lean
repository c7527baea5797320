import CxxpyTree.DebugFlag
import CxxpyTree.StoredRun

/-! The debug flag and a parse into the pools of an `AST`. -/

namespace CxxpyTree
open Machine Store

variable {α : Type}

/-- `Parser::parse` in a DEBUG build, under its debug flag, into an `AST` that was just constructed. -/
def Stored.parseTextDebug (debug : Bool) (layout : Layout) (type : InputType) (input : List Char) (ast : Store.AST) :
    Except StoredStop Store.AST :=
  let s := Input.init type input
  let inputNle := (inputBytes type input).getLast? = some newline
  match Stored.parse (tracedNextToken debug inputNle) (dump debug) layout (2 * s.rest.length + 8) ({ src := { input := s } }, ast) with
  | .ok _ (_, ast) => .ok ast
  | .error stop _ => .error stop

/-- The state of a parser without the pointer that the tracing code has moved. -/
def ParserState.untraced (s : ParserState Scanner) : ParserState Input where
  src := s.src.input
  tok := s.tok
  prevTok := s.prevTok
  argCtxt := s.argCtxt
  pool := s.pool

/-- The tracing code adds nothing but its assertions. -/
abbrev Asserts (x : Parser Scanner α) (y : Parser Input α) : Prop :=
  Shortens ParserState.untraced (· = .assertFailed) x y

abbrev StoredAsserts (x : StoredParser Scanner α) (y : StoredParser Input α) : Prop :=
  Shortens (fun s => (s.1.untraced, s.2)) (· = .parser .assertFailed) x y

section Tokens
variable {debug inputNle : Bool} {type : TokenType} {types : List TokenType}

theorem dump_asserts : Asserts (dump debug) (pure ⟨⟩) := by
  intro s
  unfold dump
  rw [wp_bind, wp_get]
  cases shown : dumpToken debug s.src.input.pos s.tok with
  | ok _ => rfl
  | error stop =>
    cases debug with
    | true => exact .inl (traceToken_error shown)
    | false => cases shown

theorem nextToken_asserts : Asserts (Parser.nextToken (tracedNextToken debug inputNle)) (Parser.nextToken nextToken) := by
  intro s
  apply wp_nextToken
  · intro tok src step
    rw [Parser.nextToken, get_bind]
    simp only [ParserState.untraced, (traced_ok step).1]
    rfl
  · intro stop step
    rcases traced_error step with failed | stopped
    · exact .inl failed
    · refine .inr ⟨s.untraced, ?_⟩
      rw [Parser.nextToken, get_bind]
      simp only [ParserState.untraced, stopped]
      rfl

theorem peekToken_asserts : Asserts (Parser.peekToken types) (Parser.peekToken types) := fun _ => rfl

theorem checkToken_run {σ : Type} (s : ParserState σ) : Parser.checkToken type s =
    if s.tok.type = type then .ok ⟨⟩ s else .error (.error ⟨s.tok.pos, .expectedToken type s.tok.type⟩) s := by
  rw [Parser.checkToken, get_bind]
  by_cases is : s.tok.type = type
  · rw [if_neg (not_not_intro is), if_pos is]
    rfl
  · rw [if_pos is, if_neg is]
    rfl

theorem checkToken_asserts : Asserts (Parser.checkToken type) (Parser.checkToken type) := by
  intro s
  by_cases is : s.tok.type = type
  · have same : Parser.checkToken type s.untraced = .ok ⟨⟩ s.untraced := (checkToken_run _).trans (if_pos is)
    exact (wp_of_ok ((checkToken_run s).trans (if_pos is))).mpr same
  · have same : Parser.checkToken type s.untraced = .error (.error ⟨s.tok.pos, .expectedToken type s.tok.type⟩) s.untraced :=
      (checkToken_run _).trans (if_neg is)
    exact (wp_of_error ((checkToken_run s).trans (if_neg is))).mpr (.inr ⟨s.untraced, same⟩)

theorem eatToken_asserts : Asserts (Parser.eatToken (tracedNextToken debug inputNle)) (Parser.eatToken nextToken) :=
  Shortens.bind (fun _ => rfl) fun _ => nextToken_asserts

theorem needToken_asserts :
    Asserts (Parser.needToken (tracedNextToken debug inputNle) type) (Parser.needToken nextToken type) :=
  checkToken_asserts.bind fun _ => eatToken_asserts

theorem tryToken_asserts :
    Asserts (Parser.tryToken (tracedNextToken debug inputNle) type) (Parser.tryToken nextToken type) :=
  peekToken_asserts.bind fun _ => .ite (eatToken_asserts.bind fun _ => .pure) .pure

theorem missedToken_asserts {func : String} : Asserts (Parser.missedToken func : Parser Scanner α) (Parser.missedToken func) :=
  fun s => .inr ⟨s.untraced, rfl⟩

theorem listElemIdx_asserts {str : CStr} {pos : Pos} :
    Asserts (Parser.listElemIdx str pos) (Parser.listElemIdx str pos) := by
  rw [Parser.listElemIdx, Parser.listElemIdx]
  split
  · exact .pure
  · exact .throw

end Tokens

section Methods
variable {debug inputNle : Bool} {layout : Layout}

theorem onParser_asserts {x : Parser Scanner α} {y : Parser Input α} (asserts : Asserts x y) :
    StoredAsserts (Stored.onParser x) (Stored.onParser y) := by
  intro s
  have same := asserts s.1
  cases ran : x s.1 with
  | ok a s' =>
    have seen : y s.1.untraced = .ok a s'.untraced := same.of_ok ran
    have went : Stored.onParser x s = .ok a (s', s.2) := by rw [Stored.onParser, ran]
    exact (wp_of_ok went).mpr (by simp only [Stored.onParser, seen])
  | error stop s' =>
    have ended : Stored.onParser x s = .error (.parser stop) (s', s.2) := by rw [Stored.onParser, ran]
    refine (wp_of_error ended).mpr ?_
    rcases same.of_error ran with rfl | ⟨t', stopped⟩
    · exact .inl rfl
    · exact .inr ⟨(t', s.2), by simp only [Stored.onParser, stopped]⟩

theorem onAst_asserts {x : StoreM α} : StoredAsserts (Stored.onAst x) (Stored.onAst x) := by
  intro s
  cases ran : x s.2 with
  | ok a ast =>
    have went : Stored.onAst x s = .ok a (s.1, ast) := by rw [Stored.onAst, ran]
    exact (wp_of_ok went).mpr (by simp only [Stored.onAst, ran])
  | error err ast =>
    have ended : Stored.onAst x s = .error (.store err) (s.1, ast) := by rw [Stored.onAst, ran]
    exact (wp_of_error ended).mpr (.inr ⟨(s.1.untraced, ast), by simp only [Stored.onAst, ran]⟩)

theorem outOfFuel_asserts :
    StoredAsserts (Stored.onParser (throw .outOfFuel) : StoredParser Scanner α) (Stored.onParser (throw .outOfFuel)) :=
  onParser_asserts .throw

/-- A method that begins with its call of `dump`. -/
theorem dumped_asserts {x : StoredParser Scanner α} {y : StoredParser Input α} (rest : StoredAsserts x y) :
    StoredAsserts (do Stored.onParser (dump debug); x) (do Stored.onParser (pure ⟨⟩); y) :=
  (onParser_asserts dump_asserts).bind fun _ => rest

theorem need_asserts {type : TokenType} {x : StoredParser Scanner α} {y : StoredParser Input α} (rest : StoredAsserts x y) :
    StoredAsserts (do Stored.needToken (tracedNextToken debug inputNle) type; x) (do Stored.needToken nextToken type; y) :=
  (onParser_asserts needToken_asserts).bind fun _ => rest

theorem peek_asserts {types : List TokenType} {x x' : StoredParser Scanner α} {y y' : StoredParser Input α}
    (first : StoredAsserts x y) (second : StoredAsserts x' y') :
    StoredAsserts (do if ← Stored.peekToken types then x else x') (do if ← Stored.peekToken types then y else y') :=
  (onParser_asserts peekToken_asserts).bind fun _ => .ite first second

theorem argCtxtGuard_asserts {x : StoredParser Scanner α} {y : StoredParser Input α} (body : StoredAsserts x y) :
    StoredAsserts (Stored.argCtxtGuard x) (Stored.argCtxtGuard y) :=
  .guarded (fun _ => rfl) (fun _ => rfl) body

theorem modifyCtxt_asserts {ctxt : Bool} : StoredAsserts (Stored.onParser (modify fun s => { s with argCtxt := ctxt }))
    (Stored.onParser (modify fun s => { s with argCtxt := ctxt })) :=
  onParser_asserts fun _ => rfl

theorem prevTok_asserts : StoredAsserts (Stored.prevTok : StoredParser Scanner Token) Stored.prevTok :=
  onParser_asserts fun _ => rfl

theorem parseNodeName_asserts : StoredAsserts (Stored.parseNodeName (tracedNextToken debug inputNle) (dump debug) layout)
    (Stored.parseNodeName nextToken (pure ⟨⟩) layout) :=
  dumped_asserts (need_asserts (prevTok_asserts.bind fun _ => onAst_asserts))

theorem parseArgName_asserts : StoredAsserts (Stored.parseArgName (tracedNextToken debug inputNle) (dump debug) layout)
    (Stored.parseArgName nextToken (pure ⟨⟩) layout) :=
  dumped_asserts (need_asserts (prevTok_asserts.bind fun _ => onAst_asserts))

theorem parseLiteral_asserts : StoredAsserts (Stored.parseLiteral (tracedNextToken debug inputNle) (dump debug) layout)
    (Stored.parseLiteral nextToken (pure ⟨⟩) layout) :=
  dumped_asserts (need_asserts (prevTok_asserts.bind fun _ => onAst_asserts))

mutual

theorem parseTreeNode_asserts : ∀ fuel,
    StoredAsserts (Stored.parseTreeNode (tracedNextToken debug inputNle) (dump debug) layout fuel)
      (Stored.parseTreeNode nextToken (pure ⟨⟩) layout fuel)
  | 0 => outOfFuel_asserts
  | fuel + 1 => by
    rw [Stored.parseTreeNode, Stored.parseTreeNode]
    apply dumped_asserts
    apply parseNodeName_asserts.bind
    intro name
    apply need_asserts
    apply (parseNodeArgs_asserts fuel).bind
    intro args
    exact need_asserts onAst_asserts
  termination_by structural fuel => fuel

theorem parseNodeArgs_asserts : ∀ fuel,
    StoredAsserts (Stored.parseNodeArgs (tracedNextToken debug inputNle) (dump debug) layout fuel)
      (Stored.parseNodeArgs nextToken (pure ⟨⟩) layout fuel)
  | 0 => outOfFuel_asserts
  | fuel + 1 => by
    rw [Stored.parseNodeArgs, Stored.parseNodeArgs]
    apply dumped_asserts
    apply peek_asserts
    · exact (parseNodeArgList_asserts fuel).bind fun _ => onAst_asserts
    · apply peek_asserts
      · exact parseLiteral_asserts.bind fun _ => onAst_asserts
      · exact onParser_asserts missedToken_asserts
  termination_by structural fuel => fuel

theorem parseNodeArgList_asserts : ∀ fuel,
    StoredAsserts (Stored.parseNodeArgList (tracedNextToken debug inputNle) (dump debug) layout fuel)
      (Stored.parseNodeArgList nextToken (pure ⟨⟩) layout fuel)
  | 0 => outOfFuel_asserts
  | fuel + 1 => by
    rw [Stored.parseNodeArgList, Stored.parseNodeArgList]
    apply peek_asserts
    · apply dumped_asserts
      apply (parseNodeArg_asserts fuel).bind
      intro arg
      exact (parseNodeArgList_asserts fuel).bind fun _ => .pure
    · exact .pure
  termination_by structural fuel => fuel

theorem parseNodeArg_asserts : ∀ fuel,
    StoredAsserts (Stored.parseNodeArg (tracedNextToken debug inputNle) (dump debug) layout fuel)
      (Stored.parseNodeArg nextToken (pure ⟨⟩) layout fuel)
  | 0 => outOfFuel_asserts
  | fuel + 1 => by
    rw [Stored.parseNodeArg, Stored.parseNodeArg]
    apply dumped_asserts
    apply argCtxtGuard_asserts
    apply need_asserts
    apply modifyCtxt_asserts.bind
    intro _
    apply parseArgName_asserts.bind
    intro name
    apply need_asserts
    exact (parseArgValue_asserts fuel).bind fun _ => onAst_asserts
  termination_by structural fuel => fuel

theorem parseArgValue_asserts : ∀ fuel,
    StoredAsserts (Stored.parseArgValue (tracedNextToken debug inputNle) (dump debug) layout fuel)
      (Stored.parseArgValue nextToken (pure ⟨⟩) layout fuel)
  | 0 => outOfFuel_asserts
  | fuel + 1 => by
    rw [Stored.parseArgValue, Stored.parseArgValue]
    apply dumped_asserts
    apply peek_asserts
    · exact (parseTreeNode_asserts fuel).bind fun _ => onAst_asserts
    · apply (onParser_asserts tryToken_asserts).bind
      intro found
      apply Shortens.ite
      · apply need_asserts
        apply parseNodeName_asserts.bind
        intro base
        apply need_asserts
        apply need_asserts
        apply (parseListElems_asserts fuel).bind
        intro elems
        exact need_asserts (onAst_asserts.bind fun _ => onAst_asserts)
      · apply peek_asserts
        · exact parseLiteral_asserts.bind fun _ => onAst_asserts
        · exact onParser_asserts missedToken_asserts
  termination_by structural fuel => fuel

theorem parseListElems_asserts : ∀ fuel,
    StoredAsserts (Stored.parseListElems (tracedNextToken debug inputNle) (dump debug) layout fuel)
      (Stored.parseListElems nextToken (pure ⟨⟩) layout fuel)
  | 0 => outOfFuel_asserts
  | fuel + 1 => by
    rw [Stored.parseListElems, Stored.parseListElems]
    apply peek_asserts
    · apply dumped_asserts
      apply (parseListElem_asserts fuel).bind
      intro elem
      exact (parseListElems_asserts fuel).bind fun _ => .pure
    · exact .pure
  termination_by structural fuel => fuel

theorem parseListElem_asserts : ∀ fuel,
    StoredAsserts (Stored.parseListElem (tracedNextToken debug inputNle) (dump debug) layout fuel)
      (Stored.parseListElem nextToken (pure ⟨⟩) layout fuel)
  | 0 => outOfFuel_asserts
  | fuel + 1 => by
    rw [Stored.parseListElem, Stored.parseListElem]
    apply dumped_asserts
    apply need_asserts
    apply need_asserts
    apply prevTok_asserts.bind
    intro tok
    apply (onParser_asserts listElemIdx_asserts).bind
    intro idx
    apply need_asserts
    apply need_asserts
    exact (parseTreeNode_asserts fuel).bind fun _ => onAst_asserts
  termination_by structural fuel => fuel

end

theorem storedParse_asserts (fuel : Nat) :
    StoredAsserts (Stored.parse (tracedNextToken debug inputNle) (dump debug) layout fuel)
      (Stored.parse nextToken (pure ⟨⟩) layout fuel) := by
  unfold Stored.parse Stored.parseTree
  apply (onParser_asserts nextToken_asserts).bind
  intro _
  apply dumped_asserts
  apply Shortens.bind
  · apply dumped_asserts
    exact (parseTreeNode_asserts fuel).bind fun _ => onAst_asserts
  · intro tree
    exact onAst_asserts.bind fun _ => onParser_asserts checkToken_asserts

end Methods

instance {debug : Bool} : OnTokens (dump debug) := by
  refine ⟨fun s pool => ?_⟩
  unfold dump
  rw [get_bind, get_bind]
  cases dumpToken debug s.src.input.pos s.tok <;> rfl

/-- The nodes that a parse with tracing code makes, also one that an assertion ends. -/
def tracedNodes (debug : Bool) (type : InputType) (input : List Char) : List AstNode :=
  let s := Input.init type input
  let inputNle := (inputBytes type input).getLast? = some newline
  (finalState (Traced.parse (tracedNextToken debug inputNle) (dump debug) (2 * s.rest.length + 8) { src := { input := s } })).pool

/-- Both succeed with equal `AST`s, or both raise the same `ParserError`. -/
def SameStored (first second : Except StoredStop Store.AST) : Prop :=
  (∃ ast, first = .ok ast ∧ second = .ok ast) ∨
    ∃ err, first = .error (.parser (.error err)) ∧ second = .error (.parser (.error err))

section Texts
variable {layout : Layout} {nodeHeap rawHeap : Heap} {ast : Store.AST} (made : Store.new nodeHeap rawHeap = some ast)
variable {debug : Bool} {type : InputType} {input : List Char}

theorem storedTextDebug_asserts :
    Stored.parseTextDebug debug layout type input ast = .error (.parser .assertFailed) ∨
      Stored.parseTextDebug debug layout type input ast = Stored.parseText layout type input ast := by
  have same := @storedParse_asserts debug ((inputBytes type input).getLast? = some newline) layout
    (2 * (Input.init type input).rest.length + 8) ({ src := { input := Input.init type input } }, ast)
  unfold Stored.parseTextDebug Stored.parseText
  cases ran : Stored.parse (tracedNextToken debug ((inputBytes type input).getLast? = some newline)) (dump debug) layout
      (2 * (Input.init type input).rest.length + 8) ({ src := { input := Input.init type input } }, ast) with
  | ok _ s' =>
    have seen : Stored.parse nextToken (pure ⟨⟩) layout (2 * (Input.init type input).rest.length + 8)
        ({ src := Input.init type input }, ast) = .ok _ (s'.1.untraced, s'.2) := same.of_ok ran
    exact .inr (by simp only [ran, seen])
  | error stop s' =>
    rcases same.of_error ran with rfl | ⟨t', stopped⟩
    · exact .inl (by simp only [ran])
    · change Stored.parse nextToken (pure ⟨⟩) layout (2 * (Input.init type input).rest.length + 8)
        ({ src := Input.init type input }, ast) = .error stop t' at stopped
      exact .inr (by simp only [ran, stopped])

include made

theorem storedTextDebug_paid (room : ast.pools.Fit layout (tracedNodes debug type input)) :
    (∀ stop, parseTextDebug debug type input = .error stop →
      Stored.parseTextDebug debug layout type input ast = .error (.parser stop)) ∧
    ∀ tree, parseTextDebug debug type input = .ok tree →
      ∃ ast', Stored.parseTextDebug debug layout type input ast = .ok ast' := by
  obtain ⟨fresh, valid⟩ := Store.new_valid made
  have runs := @storedParse_paid _ (tracedNextToken debug ((inputBytes type input).getLast? = some newline)) (dump debug)
    layout fresh ast { src := { input := Input.init type input } } (2 * (Input.init type input).rest.length + 8) _ valid
    (new_empty made) rfl room
  unfold parseTextDebug Stored.parseTextDebug
  cases ran : Traced.parse (tracedNextToken debug ((inputBytes type input).getLast? = some newline)) (dump debug)
      (2 * (Input.init type input).rest.length + 8) { src := { input := Input.init type input } } with
  | error stop s' =>
    obtain ⟨t', stopped⟩ := runs.of_error ran
    simp only [Parser.result, ran, stopped]
    constructor
    · rintro _ ⟨⟩
      rfl
    · rintro _ ⟨⟩
  | ok tree s' =>
    obtain ⟨-, parser, ast', stored, -⟩ := runs.of_ok ran
    simp only [Parser.result, ran, stored]
    constructor
    · rintro _ ⟨⟩
    · exact fun _ _ => ⟨ast', rfl⟩

theorem storedTextDebug_short (full : ¬ ast.pools.Fit layout (tracedNodes debug type input)) :
    ∃ what, Stored.parseTextDebug debug layout type input ast = .error (.store (.alloc (.badAlloc what))) := by
  obtain ⟨fresh, valid⟩ := Store.new_valid made
  obtain ⟨what, t', stopped⟩ :=
    @storedParse_short _ (tracedNextToken debug ((inputBytes type input).getLast? = some newline)) (dump debug)
      layout fresh ast { src := { input := Input.init type input } } (2 * (Input.init type input).rest.length + 8) _ valid
      (new_empty made) rfl full
  exact ⟨what, by simp only [Stored.parseTextDebug, stopped]⟩

/-- Where no assertion fails, the tracing code adds nothing to a parse into the pools. -/
theorem storedTextDebug_eq (fits : debug = true → TraceFits (Input.init type input)) :
    Stored.parseTextDebug debug layout type input ast = Stored.parseText layout type input ast := by
  refine (storedTextDebug_asserts).resolve_left fun failed => ?_
  by_cases room : ast.pools.Fit layout (tracedNodes debug type input)
  · have paid := storedTextDebug_paid made room
    rw [parseTextDebug_eq fits] at paid
    rcases @parseText_stops type input with ⟨tree, parsed⟩ | ⟨err, stopped⟩
    · obtain ⟨ast', stored⟩ := paid.2 tree parsed
      cases failed.symm.trans stored
    · cases failed.symm.trans (paid.1 _ stopped)
  · obtain ⟨what, broke⟩ := storedTextDebug_short made room
    cases failed.symm.trans broke

/-- A text that does not keep within the widths fails an assertion, if the pools last so long. -/
theorem storedTextDebug_wide (wide : ¬ TraceFits (Input.init type input))
    (room : ast.pools.Fit layout (tracedNodes true type input)) :
    Stored.parseTextDebug true layout type input ast = .error (.parser .assertFailed) :=
  (storedTextDebug_paid made room).1 _ (not_not.mp fun ends => wide (traceFits_of_ends ends))

/-- A parse into pools with room comes to an end with an `AST` or with a `ParserError`. -/
theorem storedText_stops : SameStored (Stored.parseText layout type input ast) (Stored.parseText layout type input ast) ↔
    ast.pools.Fit layout (parseNodes type input) := by
  constructor
  · intro same
    by_contra full
    obtain ⟨what, broke⟩ := storedText_short made full
    rcases same with ⟨ast', parsed, -⟩ | ⟨err, stopped, -⟩
    · cases broke.symm.trans parsed
    · cases broke.symm.trans stopped
  · intro room
    rcases @parseText_stops type input with ⟨tree, parsed⟩ | ⟨err, stopped⟩
    · obtain ⟨-, ptrs, ast', stored, -⟩ := (storedText_paid made room).2 tree parsed
      exact .inl ⟨ast', stored, stored⟩
    · have stored := (storedText_paid made room).1 _ stopped
      exact .inr ⟨err, stored, stored⟩

/-- The debug flag only adds output exactly to the texts that keep within the widths of the tracing code and whose nodes
fit in the pools. It changes the outcome exactly of the texts that leave the widths before the pools are used up. -/
theorem debug_flag_adds_output :
    (SameStored (Stored.parseTextDebug true layout type input ast) (Stored.parseTextDebug false layout type input ast) ↔
      TraceFits (Input.init type input) ∧ ast.pools.Fit layout (parseNodes type input)) ∧
    (Stored.parseTextDebug true layout type input ast = Stored.parseTextDebug false layout type input ast ↔
      TraceFits (Input.init type input) ∨ ¬ ast.pools.Fit layout (tracedNodes true type input)) := by
  have silent : Stored.parseTextDebug false layout type input ast = Stored.parseText layout type input ast :=
    storedTextDebug_eq made nofun
  rw [silent]
  constructor
  · constructor
    · intro same
      have fits : TraceFits (Input.init type input) := by
        by_contra wide
        by_cases room : ast.pools.Fit layout (tracedNodes true type input)
        · rw [storedTextDebug_wide made wide room] at same
          rcases same with ⟨_, ⟨⟩, -⟩ | ⟨_, ⟨⟩, -⟩
        · obtain ⟨what, broke⟩ := storedTextDebug_short made room
          rw [broke] at same
          rcases same with ⟨_, ⟨⟩, -⟩ | ⟨_, ⟨⟩, -⟩
      rw [storedTextDebug_eq made fun _ => fits] at same
      exact ⟨fits, (storedText_stops made).mp same⟩
    · rintro ⟨fits, room⟩
      rw [storedTextDebug_eq made fun _ => fits]
      exact (storedText_stops made).mpr room
  · constructor
    · intro same
      by_contra both
      obtain ⟨wide, room⟩ := not_or.mp both
      have failed := storedTextDebug_wide made wide (not_not.mp room)
      rw [failed] at same
      by_cases room : ast.pools.Fit layout (parseNodes type input)
      · rcases (storedText_stops made).mpr room with ⟨_, parsed, -⟩ | ⟨_, stopped, -⟩
        · cases same.trans parsed
        · cases same.trans stopped
      · obtain ⟨what, broke⟩ := storedText_short made room
        cases same.trans broke
    · rintro (fits | full)
      · exact storedTextDebug_eq made fun _ => fits
      · obtain ⟨what, broke⟩ := storedTextDebug_short made full
        refine (storedTextDebug_asserts).resolve_left fun failed => ?_
        cases failed.symm.trans broke

end Texts

theorem debug_flag_adds_output_nested :
    let layout : Layout := ⟨fun _ => 24, fun _ => ⟨3⟩⟩
    let input := "A(.a=B())".toList ++ [newline]
    SameStored (Stored.parseTextDebug true layout .text input storeAt) (Stored.parseTextDebug false layout .text input storeAt) := by
  intro layout input
  have room : storeAt.pools.Fit layout (parseNodes .text input) := by
    unfold Pools.Fit
    decide +kernel
  have parsed : (parseTextDebug true .text input).isOk = true := by decide +kernel
  have ends : parseTextDebug true .text input ≠ .error .assertFailed := by
    intro failed
    rw [failed] at parsed
    cases parsed
  exact (debug_flag_adds_output storeAt_new).1.mpr ⟨traceFits_of_ends ends, room⟩

/-- `dump` has no column for a name of nineteen characters. -/
theorem debug_flag_long_name :
    let layout : Layout := ⟨fun _ => 24, fun _ => ⟨3⟩⟩
    let input := "Aaaaaaaaaaaaaaaaaaa()".toList
    Stored.parseTextDebug true layout .text input storeAt = .error (.parser .assertFailed) ∧
      (∃ ast, Stored.parseTextDebug false layout .text input storeAt = .ok ast) ∧
      ¬ SameStored (Stored.parseTextDebug true layout .text input storeAt) (Stored.parseTextDebug false layout .text input storeAt) := by
  intro layout input
  have traced : parseTextDebug true .text "Aaaaaaaaaaaaaaaaaaa()".toList = .error .assertFailed := by rfl
  have room : storeAt.pools.Fit layout (tracedNodes true .text input) := by
    unfold Pools.Fit
    decide +kernel
  have room' : storeAt.pools.Fit layout (tracedNodes false .text input) := by
    unfold Pools.Fit
    decide +kernel
  have parsed : (parseTextDebug false .text input).isOk = true := by decide +kernel
  have failed := (storedTextDebug_paid storeAt_new room).1 _ traced
  refine ⟨failed, ?_, ?_⟩
  · cases outcome : parseTextDebug false .text input with
    | ok tree => exact (storedTextDebug_paid storeAt_new room').2 tree outcome
    | error stop =>
      rw [outcome] at parsed
      cases parsed
  · rw [failed]
    rintro (⟨_, ⟨⟩, -⟩ | ⟨_, ⟨⟩, -⟩)

end CxxpyTree
