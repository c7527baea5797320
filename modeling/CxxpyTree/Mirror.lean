import CxxpyTree.ViablePrefix

/-! What every method of the parser does over a source of tokens, against its run over the list of
the tokens that it has read. -/

namespace CxxpyTree

open Ebnf Machine

variable {σ : Type}

section Check
variable {type : TokenType} {s : ParserState σ}

theorem checkToken_same (same : s.tok.type = type) : Parser.checkToken type s = .ok ⟨⟩ s := by
  rw [Parser.checkToken, get_bind, if_neg (not_not.mpr same)]
  rfl

theorem checkToken_other (other : s.tok.type ≠ type) :
    Parser.checkToken type s = .error (.error ⟨s.tok.pos, .expectedToken type s.tok.type⟩) s := by
  rw [Parser.checkToken, get_bind, if_pos other]
  rfl

/-- `try_token` in front of two ways to go on. -/
theorem tryToken_bind {next : TokenSource σ} {f : Bool → Parser σ α} : (Parser.tryToken next type >>= f) = (do
    if ← Parser.peekToken [type] then
      Parser.needToken next type
      f true
    else f false) := by
  funext s
  rw [Parser.tryToken, bind_assoc]
  have peeked : Parser.peekToken [type] s = .ok ([type].contains s.tok.type) s := rfl
  rw [bind_of_ok peeked, bind_of_ok peeked]
  by_cases same : s.tok.type = type
  · simp only [same, List.contains_cons, beq_self_eq_true, Bool.true_or, if_true, bind_assoc, pure_bind,
      Parser.needToken]
    rw [bind_of_ok (checkToken_same same)]
  · simp [same]

end Check

/-- From the current token and the source, the parser eats one token after the other. -/
inductive Scans (next : TokenSource σ) : Token → σ → List Token → Token → σ → Prop where
  | nil {tok src} : Scans next tok src [] tok src
  | cons {tok src tok' src' eaten last final} (step : next (tok.type == .dot) src = .ok (tok', src'))
      (rest : Scans next tok' src' eaten last final) : Scans next tok src (tok :: eaten) last final

namespace Scans
variable {next : TokenSource σ} {tok mid last : Token} {src src' final : σ} {a b : List Token}

theorem append (left : Scans next tok src a mid src') (right : Scans next mid src' b last final) :
    Scans next tok src (a ++ b) last final := by
  induction left with
  | nil => exact right
  | cons step _ ih => exact .cons step (ih right)

theorem one (step : next (tok.type == .dot) src = .ok (last, final)) : Scans next tok src [tok] last final :=
  .cons step .nil

/-- The tokens begin with the current one, also when another of its type stands for the last. -/
theorem head (scans : Scans next tok src a last final) {other : Token} (same : other.type = last.type) (rest : List Token) :
    ∃ first more, a ++ other :: rest = first :: more ∧ first.type = tok.type := by
  cases scans with
  | nil => exact ⟨other, rest, rfl, same⟩
  | cons => exact ⟨_, _, rfl, rfl⟩

theorem begins (scans : Scans next tok src a last final) : ∃ more, a ++ [last] = tok :: more := by
  cases scans with
  | nil => exact ⟨[], rfl⟩
  | cons => exact ⟨_, rfl⟩

theorem split_append (scans : Scans next tok src (a ++ b) last final) :
    ∃ mid src', Scans next tok src a mid src' ∧ Scans next mid src' b last final := by
  induction a generalizing tok src with
  | nil => exact ⟨tok, src, .nil, scans⟩
  | cons head a ih =>
    cases scans with
    | cons step rest =>
      obtain ⟨mid, src', left, right⟩ := ih rest
      exact ⟨mid, src', .cons step left, right⟩

/-- Of two scans from one place one goes on from the end of the other. -/
theorem compare {last' : Token} {final' : σ} (first : Scans next tok src a last final)
    (second : Scans next tok src b last' final') :
    (∃ c, b = a ++ c ∧ Scans next last final c last' final') ∨ ∃ c, a = b ++ c ∧ Scans next last' final' c last final := by
  induction first generalizing b with
  | nil => exact .inl ⟨b, rfl, second⟩
  | cons step rest ih =>
    cases second with
    | nil => exact .inr ⟨_, rfl, .cons step rest⟩
    | cons step' rest' =>
      obtain ⟨rfl, rfl⟩ := Prod.mk.inj (Except.ok.inj (step.symm.trans step'))
      rcases ih rest' with ⟨c, rfl, more⟩ | ⟨c, rfl, more⟩
      · exact .inl ⟨c, rfl, more⟩
      · exact .inr ⟨c, rfl, more⟩

theorem unique {last' : Token} {final' : σ} (first : Scans next tok src a last final)
    (second : Scans next tok src a last' final') : last' = last ∧ final' = final := by
  rcases first.compare second with ⟨c, split, more⟩ | ⟨c, split, more⟩
  · obtain rfl := List.self_eq_append_right.mp split
    cases more
    exact ⟨rfl, rfl⟩
  · obtain rfl := List.self_eq_append_right.mp split
    cases more
    exact ⟨rfl, rfl⟩

end Scans

/-- The parser over a list: the first token is the current one. -/
def ParserState.on (s : ParserState σ) (toks : List Token) : ParserState (List Token) where
  src := toks.tail
  tok := toks.headD {}
  prevTok := s.prevTok
  argCtxt := s.argCtxt
  pool := s.pool

/-- `x` has returned: it has eaten a word, and over the same tokens `y` returns the same, whatever
follows and whatever token of its type stands for the current one. -/
structure Returns (next : TokenSource σ) (rhs : TreeRhs) (y : Parser (List Token) α) (s : ParserState σ) (a : α)
    (s' : ParserState σ) (eaten : List Token) : Prop where
  scans : Scans next s.tok s.src eaten s'.tok s'.src
  word : Derived rhs eaten
  again : ∀ tok rest, tok.type = s'.tok.type → y (s.on (eaten ++ tok :: rest)) = .ok a (s'.on (tok :: rest))

/-- `x` has stopped: out of fuel, at its current token, behind a number out of range, or when the
source failed to give it a token. But for the fuel, `y` stops over the same tokens. -/
inductive Stops (next : TokenSource σ) (rhs : TreeRhs) (y : Parser (List Token) α) (s : ParserState σ) :
    Stop → ParserState σ → Prop where
  | fuel {s'} : Stops next rhs y s .outOfFuel s'
  | stuck {s' eaten msg} (scans : Scans next s.tok s.src eaten s'.tok s'.src) (begun : Begins rhs eaten)
      (again : ∀ tok rest, tok.type = s'.tok.type →
        ∃ t, y (s.on (eaten ++ tok :: rest)) = .error (.error ⟨tok.pos, msg⟩) t) :
      Stops next rhs y s (.error ⟨s'.tok.pos, msg⟩) s'
  | refused {s' eaten tok msg} (scans : Scans next s.tok s.src (eaten ++ [tok]) s'.tok s'.src)
      (begun : Begins rhs eaten) (unfit : ¬ tok.InRange)
      (again : ∀ other rest, other.type = s'.tok.type →
        ∃ t, y (s.on (eaten ++ [tok] ++ other :: rest)) = .error (.error ⟨tok.pos, msg⟩) t) :
      Stops next rhs y s (.error ⟨tok.pos, msg⟩) s'
  | starved {s' eaten last final stop} (scans : Scans next s.tok s.src eaten last final)
      (step : next (last.type == .dot) final = .error stop)
      (begun : ∃ tok : Token, tok.type = last.type ∧ Begins rhs (eaten ++ [tok]))
      (again : ∀ tok, tok.type = last.type → ∃ t, y (s.on (eaten ++ [tok])) = .error .assertFailed t) :
      Stops next rhs y s stop s'

/-- From a state with `arg_ctxt` off, `x` over the source does what `y` does over the list of the
tokens that it reads. -/
def Mirrors (next : TokenSource σ) (rhs : TreeRhs) (x : Parser σ α) (y : Parser (List Token) α) : Prop :=
  ∀ s : ParserState σ, s.argCtxt = false →
    wp x (fun a s' => s'.argCtxt = false ∧ ∃ eaten, Returns next rhs y s a s' eaten) (Stops next rhs y s) s

section Behind
variable {next : TokenSource σ} {rhs rhs' : TreeRhs} {y : Parser (List Token) α} {z : Parser (List Token) β}
  {s s₁ s₂ : ParserState σ} {u : List Token}

/-- From behind the tokens `u`, where `y` takes over from `z`. -/
theorem Returns.behind {z : Parser (List Token) α} {a : α} {eaten : List Token}
    (scans : Scans next s.tok s.src u s₁.tok s₁.src) (covers : ∀ {v}, Derived rhs v → Derived rhs' (u ++ v))
    (outcomes : ∀ tok rest, tok.type = s₁.tok.type → z (s.on (u ++ tok :: rest)) = y (s₁.on (tok :: rest)))
    (returns : Returns next rhs y s₁ a s₂ eaten) : Returns next rhs' z s a s₂ (u ++ eaten) where
  scans := scans.append returns.scans
  word := covers returns.word
  again tok rest same := by
    obtain ⟨head, more, split, type⟩ := returns.scans.head same rest
    have again := returns.again tok rest same
    rw [List.append_assoc, split, outcomes head more type, ← split]
    exact again

theorem Stops.behind {stop : Stop} (scans : Scans next s.tok s.src u s₁.tok s₁.src)
    (covers : ∀ {v}, Begins rhs v → Begins rhs' (u ++ v))
    (errors : ∀ tok rest, tok.type = s₁.tok.type → ∀ stop t, y (s₁.on (tok :: rest)) = .error stop t →
      ∃ t', z (s.on (u ++ tok :: rest)) = .error stop t')
    (stops : Stops next rhs y s₁ stop s₂) : Stops next rhs' z s stop s₂ := by
  have along : ∀ {v last final}, Scans next s₁.tok s₁.src v last final → ∀ tok rest, tok.type = last.type →
      ∀ {stop}, (∃ t, y (s₁.on (v ++ tok :: rest)) = .error stop t) →
      ∃ t, z (s.on (u ++ v ++ tok :: rest)) = .error stop t := by
    rintro v last final scans tok rest same stop ⟨t, outcome⟩
    obtain ⟨head, more, split, type⟩ := scans.head same rest
    rw [split] at outcome
    rw [List.append_assoc, split]
    exact errors head more type stop t outcome
  cases stops with
  | fuel => exact .fuel
  | stuck scans' begun again =>
    apply Stops.stuck (scans.append scans') (covers begun)
    intro tok rest same
    exact along scans' tok rest same (again tok rest same)
  | @refused _ eaten tok msg scans' begun unfit again =>
    have whole := scans.append scans'
    rw [← List.append_assoc] at whole
    apply Stops.refused whole (covers begun) unfit
    intro other rest same
    rw [List.append_assoc u]
    exact along scans' other rest same (again other rest same)
  | @starved _ eaten last final _ scans' step begun again =>
    obtain ⟨tok, type, begun⟩ := begun
    have longer := covers begun
    rw [← List.append_assoc] at longer
    apply Stops.starved (scans.append scans') step ⟨tok, type, longer⟩
    intro tok same
    exact along scans' tok [] same (again tok same)

/-- A program that stops wherever `y` does. -/
theorem Stops.map {stop : Stop} (covers : ∀ {u}, Begins rhs u → Begins rhs' u)
    (errors : ∀ toks stop t, y (s.on toks) = .error stop t → ∃ t', z (s.on toks) = .error stop t')
    (stops : Stops next rhs y s stop s₂) : Stops next rhs' z s stop s₂ :=
  stops.behind .nil covers fun tok rest _ => errors (tok :: rest)

/-- The end of the scope of `arg_ctxt`. -/
theorem Stops.leave {stop : Stop} {ctxt : Bool} (stops : Stops next rhs y s stop s₂) :
    Stops next rhs y s stop { s₂ with argCtxt := ctxt } := by
  cases stops with
  | fuel => exact .fuel
  | stuck scans begun again => exact @stuck _ _ _ _ _ _ { s₂ with argCtxt := ctxt } _ _ scans begun again
  | refused scans begun unfit again =>
    exact @refused _ _ _ _ _ _ { s₂ with argCtxt := ctxt } _ _ _ scans begun unfit again
  | starved scans step begun again => exact .starved scans step begun again

end Behind

/-- `x` and `y` return the same, without a look at the source. -/
def Quiet (x : Parser σ α) (y : Parser (List Token) α) : Prop :=
  ∀ s : ParserState σ, ∃ a s', x s = .ok a s' ∧ s'.tok = s.tok ∧ s'.src = s.src ∧ (s.argCtxt = false → s'.argCtxt = false) ∧
    ∀ toks, y (s.on toks) = .ok a (s'.on toks)

namespace Quiet
variable {f : α → Parser σ β} {g : α → Parser (List Token) β} {x : Parser σ α} {y : Parser (List Token) α}

theorem bind (first : Quiet x y) (rest : ∀ a, Quiet (f a) (g a)) : Quiet (x >>= f) (y >>= g) := by
  intro s
  obtain ⟨a, s₁, outcome, tok, src, ctxt, again⟩ := first s
  obtain ⟨b, s₂, outcome', tok', src', ctxt', again'⟩ := rest a s₁
  refine ⟨b, s₂, (bind_of_ok outcome).trans outcome', tok'.trans tok, src'.trans src, ctxt' ∘ ctxt, ?_⟩
  exact fun toks => (bind_of_ok (again toks)).trans (again' toks)

theorem pure {a : α} : Quiet (Pure.pure a : Parser σ α) (Pure.pure a) := fun s => ⟨a, s, rfl, rfl, rfl, id, fun _ => rfl⟩

theorem prevTok : Quiet (Parser.prevTok : Parser σ Token) Parser.prevTok :=
  fun s => ⟨s.prevTok, s, rfl, rfl, rfl, id, fun _ => rfl⟩

theorem newNode {wrap : α → AstNode} {node : α} :
    Quiet (Parser.newNode wrap node : Parser σ α) (Parser.newNode wrap node) :=
  fun s => ⟨node, { s with pool := s.pool ++ [wrap node] }, rfl, rfl, rfl, id, fun _ => rfl⟩

end Quiet

namespace Mirrors
variable {next : TokenSource σ} {rhs rhs' : TreeRhs} {x x' : Parser σ α} {y y' : Parser (List Token) α}
  {f : α → Parser σ β} {g : α → Parser (List Token) β}

theorem mono (covers : ∀ {w}, Derived rhs w → Derived rhs' w) (mirrors : Mirrors next rhs x y) :
    Mirrors next rhs' x y := by
  intro s ctxt
  apply (mirrors s ctxt).mono
  · rintro a s' ⟨ctxt', eaten, scans, word, again⟩
    exact ⟨ctxt', eaten, scans, covers word, again⟩
  · exact fun stop s' stops => stops.map (.mono covers) fun _ _ t outcome => ⟨t, outcome⟩

theorem seq (first : Mirrors next rhs x y) (second : ∀ a, Mirrors next rhs' (f a) (g a)) :
    Mirrors next (.seq rhs rhs') (x >>= f) (y >>= g) := by
  intro s ctxt
  apply wp_bind.mpr
  apply (first s ctxt).mono
  · rintro a s₁ ⟨ctxt₁, u, scans, word, again⟩
    -- `g` goes on over what `y` has left of the list
    have resume : ∀ tok rest, tok.type = s₁.tok.type →
        (y >>= g) (s.on (u ++ tok :: rest)) = g a (s₁.on (tok :: rest)) :=
      fun tok rest same => bind_of_ok (again tok rest same)
    apply (second a s₁ ctxt₁).mono
    · rintro b s₂ ⟨ctxt₂, v, returns⟩
      exact ⟨ctxt₂, u ++ v, returns.behind scans word.seq resume⟩
    · intro stop s₂ stops
      apply stops.behind scans (.right word)
      intro tok rest same stop t outcome
      exact ⟨t, (resume tok rest same).trans outcome⟩
  · exact fun stop s₁ stops => stops.map .left fun _ _ t outcome => ⟨t, bind_of_error outcome⟩

theorem after (mirrors : Mirrors next rhs x y) (quiet : ∀ a, Quiet (f a) (g a)) :
    Mirrors next rhs (x >>= f) (y >>= g) := by
  intro s ctxt
  apply wp_bind.mpr
  apply (mirrors s ctxt).mono
  · rintro a s₁ ⟨ctxt₁, eaten, scans, word, again⟩
    obtain ⟨b, s₂, outcome, tok, src, ctxt₂, again'⟩ := quiet a s₁
    apply (wp_of_ok outcome).mpr
    refine ⟨ctxt₂ ctxt₁, eaten, ?_, word, ?_⟩
    · rw [tok, src]
      exact scans
    · intro other rest same
      rw [bind_of_ok (again other rest (tok ▸ same))]
      exact again' _
  · exact fun stop s₁ stops => stops.map id fun _ _ t outcome => ⟨t, bind_of_error outcome⟩

theorem pure {a : α} (empty : Derived rhs []) : Mirrors next rhs (Pure.pure a) (Pure.pure a) :=
  fun _ ctxt => ⟨ctxt, [], .nil, empty, fun _ _ _ => rfl⟩

theorem outOfFuel : Mirrors next rhs (throw .outOfFuel : Parser σ α) y := fun _ _ => .fuel

theorem missedToken {func : String} :
    Mirrors next rhs (Parser.missedToken func : Parser σ α) (Parser.missedToken func) := by
  intro s _
  apply wp_missedToken.mpr
  apply Stops.stuck .nil .nil
  intro tok rest same
  rw [← same]
  exact ⟨_, rfl⟩

theorem peek {types : List TokenType} (first : Mirrors next rhs x y) (second : Mirrors next rhs x' y') :
    Mirrors next rhs (do if ← Parser.peekToken types then x else x') (do if ← Parser.peekToken types then y else y') := by
  intro s ctxt
  apply wp_bind.mpr
  rw [wp_peekToken]
  have peeked : ∀ tok rest, tok.type = s.tok.type → (do if ← Parser.peekToken types then y else y') (s.on (tok :: rest)) =
      (if types.contains s.tok.type then y else y') (s.on (tok :: rest)) := by
    intro tok rest same
    rw [← same]
    rfl
  have either : Mirrors next rhs (if types.contains s.tok.type then x else x') (if types.contains s.tok.type then y else y') := by
    split
    · exact first
    · exact second
  apply (either s ctxt).mono
  · exact fun a s' ⟨ctxt', eaten, returns⟩ => ⟨ctxt', eaten, returns.behind .nil id peeked⟩
  · intro stop s' stops
    apply stops.behind .nil id
    intro tok rest same stop t outcome
    exact ⟨t, (peeked tok rest same).trans outcome⟩

/-- Over a list a token of the type that is needed gives way to the one behind it. -/
private theorem needed {type : TokenType} {s : ParserState σ} (same : s.tok.type = type) (view : Token × σ)
    (tok : Token) (rest : List Token) :
    Parser.needToken listSource type (s.on (s.tok :: tok :: rest)) = .ok ⟨⟩ ((s.eat view).on (tok :: rest)) :=
  bind_of_ok (@checkToken_same _ type (s.on (s.tok :: tok :: rest)) same)

/-- The token that is needed is eaten first, under the right value of `arg_ctxt`. -/
private theorem need {type : TokenType} {x : PUnit → Parser σ α} {y : PUnit → Parser (List Token) α} {s : ParserState σ}
    {post : α → ParserState σ → Prop} (ctxt : s.argCtxt = (type == .dot))
    (begins : ∃ tok : Token, tok.type = type ∧ Begins rhs [tok])
    (eats : s.tok.type = type → ∀ view, next (s.tok.type == .dot) s.src = .ok view →
      wp (x ⟨⟩) post (Stops next rhs (Parser.needToken listSource type >>= y) s) (s.eat view)) :
    wp (Parser.needToken next type >>= x) post (Stops next rhs (Parser.needToken listSource type >>= y) s) s := by
  apply wp_bind.mpr
  apply wp_bind.mpr
  apply wp_checkToken
  · intro same
    apply wp_eatToken
    · intro view step
      rw [ctxt, ← same] at step
      exact eats same view step
    · intro stop s' step
      rw [ctxt, ← same] at step
      obtain ⟨tok, type', begun⟩ := begins
      apply Stops.starved .nil step ⟨tok, type'.trans same.symm, begun⟩
      intro tok same'
      rw [List.nil_append, Parser.needToken, bind_assoc]
      rw [bind_of_ok (@checkToken_same _ type (s.on [tok]) (same'.trans same))]
      exact ⟨_, rfl⟩
  · intro other
    apply Stops.stuck .nil .nil
    intro tok rest same
    rw [← same] at other ⊢
    exact ⟨_, bind_of_error (bind_of_error (@checkToken_other _ type (s.on (tok :: rest)) other))⟩

theorem needToken {type : TokenType} (other : type ≠ .num) (notDot : type ≠ .dot) :
    Mirrors next (.term type) (Parser.needToken next type) (Parser.needToken listSource type) := by
  intro s ctxt
  have word : ∀ {tok : Token}, tok.type = type → Derived (.term type) [tok] := by
    rintro tok rfl
    exact .tok fun isNum => absurd isNum other
  rw [← bind_pure (Parser.needToken next type), ← bind_pure (Parser.needToken listSource type)]
  apply need (ctxt.trans (beq_false_of_ne notDot).symm) ⟨{ type }, rfl, .of_derived (word rfl)⟩
  intro same view step
  refine ⟨ctxt, [s.tok], .one step, word same, ?_⟩
  intro tok rest _
  exact bind_of_ok (needed same view tok rest)

/-- The methods of the rules that are a single word. -/
theorem word {type : TokenType} {wrap : α → AstNode} {make : CStr → α} (other : type ≠ .num) (notDot : type ≠ .dot) :
    Mirrors next (.term type) (do
        Parser.needToken next type
        Parser.newNode wrap (make (← Parser.prevTok).lex))
      (do
        Parser.needToken listSource type
        Parser.newNode wrap (make (← Parser.prevTok).lex)) :=
  .after (.needToken other notDot) fun _ => .bind .prevTok fun _ => .newNode

/-- The index of a list element. -/
private theorem number : Mirrors next (.term .num) (do
      Parser.needToken next .num
      let tok ← Parser.prevTok
      Parser.listElemIdx tok.lex tok.pos)
    (do
      Parser.needToken listSource .num
      let tok ← Parser.prevTok
      Parser.listElemIdx tok.lex tok.pos) := by
  intro s ctxt
  apply need ctxt ⟨_, rfl, .of_derived (@Derived.tok { type := .num, lex := ['0'] } zero_inRange)⟩
  intro (isNum : s.tok.type = .num) view step
  rw [wp_bind, wp_prevTok]
  have again : ∀ tok rest, (do
      Parser.needToken listSource .num
      let tok ← Parser.prevTok
      Parser.listElemIdx tok.lex tok.pos) (s.on ([s.tok] ++ tok :: rest)) =
      Parser.listElemIdx (cstr s.tok.lex) s.tok.pos ((s.eat view).on (tok :: rest)) :=
    fun tok rest => bind_of_ok (needed isNum view tok rest)
  rw [Parser.listElemIdx] at again ⊢
  cases read : parseNum IntType.uchar (cstr s.tok.lex) with
  | some v =>
    obtain ⟨numeral, small, -⟩ := parseNum_uchar_eq_some.mp read
    simp only [ParserState.eat, read] at again ⊢
    refine ⟨ctxt, [s.tok], .one step, isNum ▸ .tok fun _ => ⟨numeral, small⟩, ?_⟩
    intro tok rest _
    exact again tok rest
  | none =>
    simp only [ParserState.eat, read] at again ⊢
    refine @Stops.refused _ _ _ _ _ _ _ [] s.tok _ (.one step) .nil ?_ ?_
    · intro range
      have accepted := parseNum_uchar_eq_some.mpr ⟨(range isNum).1, (range isNum).2, rfl⟩
      cases read.symm.trans accepted
    · intro other rest _
      exact ⟨_, again other rest⟩

theorem index {f : UInt8 → Parser σ α} {g : UInt8 → Parser (List Token) α} (rest : ∀ idx, Mirrors next rhs (f idx) (g idx)) :
    Mirrors next (.seq (.term .num) rhs) (do
        Parser.needToken next .num
        let tok ← Parser.prevTok
        let idx ← Parser.listElemIdx tok.lex tok.pos
        f idx)
      (do
        Parser.needToken listSource .num
        let tok ← Parser.prevTok
        let idx ← Parser.listElemIdx tok.lex tok.pos
        g idx) := by
  have both := number.seq rest
  simpa only [bind_assoc] using both

private theorem scope {s : ParserState σ}
    (run : wp x (fun a s' => ∃ eaten, Returns next rhs y { s with argCtxt := true } a s' eaten)
      (Stops next rhs y { s with argCtxt := true }) { s with argCtxt := true }) :
    wp (Parser.argCtxtGuard x)
      (fun a s' => s'.argCtxt = false ∧ ∃ eaten, Returns next rhs (Parser.argCtxtGuard y) s a s' eaten)
      (Stops next rhs (Parser.argCtxtGuard y) s) s := by
  apply wp_guarded.mpr
  apply run.mono
  · rintro a s' ⟨eaten, scans, word, again⟩
    refine ⟨rfl, eaten, scans, word, ?_⟩
    intro tok rest same
    have inner : y { s.on (eaten ++ tok :: rest) with argCtxt := true } = .ok a (s'.on (tok :: rest)) := again tok rest same
    simp only [Parser.argCtxtGuard, guarded, inner]
    rfl
  · intro stop s' stops
    apply Stops.leave
    refine @Stops.behind _ _ _ _ _ _ y _ s { s with argCtxt := true } s' [] stop .nil id ?_ stops
    intro tok rest _ stop t outcome
    have inner : y { s.on (tok :: rest) with argCtxt := true } = .error stop t := outcome
    refine ⟨{ t with argCtxt := false }, ?_⟩
    simp only [Parser.argCtxtGuard, guarded, List.nil_append, inner]

/-- What follows a dot in its scope of `arg_ctxt`. -/
theorem dotted (mirrors : Mirrors next rhs x y) : Mirrors next (.seq (.term .dot) rhs)
    (Parser.argCtxtGuard do
      Parser.needToken next .dot
      modify fun s => { s with argCtxt := false }
      x)
    (Parser.argCtxtGuard do
      Parser.needToken listSource .dot
      modify fun s => { s with argCtxt := false }
      y) := by
  intro s _
  have isDot : ∀ {tok : Token}, tok.type = .dot → Derived (.term .dot) [tok] := by
    intro tok same
    exact same ▸ .tok fun isNum => absurd (same.symm.trans isNum) nofun
  apply scope
  apply need rfl ⟨({ type := .dot } : Token), rfl, .left (.of_derived (isDot rfl))⟩
  intro (same : s.tok.type = .dot) view step
  rw [wp_bind, wp_modify]
  have resume : ∀ tok rest, (do
      Parser.needToken listSource .dot
      modify fun s => { s with argCtxt := false }
      y : Parser (List Token) α) (({ s with argCtxt := true } : ParserState σ).on ([s.tok] ++ tok :: rest)) =
      y (({ s.eat view with argCtxt := false } : ParserState σ).on (tok :: rest)) :=
    fun tok rest => bind_of_ok (@needed _ .dot { s with argCtxt := true } same view tok rest)
  have eaten : Scans next s.tok s.src [s.tok] view.1 view.2 := .one step
  apply (mirrors { s.eat view with argCtxt := false } rfl).mono
  · rintro a s' ⟨_, v, returns⟩
    exact ⟨[s.tok] ++ v, returns.behind eaten (isDot same).seq fun tok rest _ => resume tok rest⟩
  · intro stop s' stops
    refine @Stops.behind _ _ _ _ _ _ y _ { s with argCtxt := true } { s.eat view with argCtxt := false } s' [s.tok] stop
      eaten (.right (isDot same)) ?_ stops
    intro tok rest _ stop t outcome
    exact ⟨t, (resume tok rest).trans outcome⟩

end Mirrors

section Methods
variable {next : TokenSource σ}

theorem parseNodeName_mirrors : Mirrors next (.ref .nodeName) (Parser.parseNodeName next) (Parser.parseNodeName listSource) :=
  .mono .ref (.word (by decide) (by decide))

theorem parseArgName_mirrors : Mirrors next (.ref .argName) (Parser.parseArgName next) (Parser.parseArgName listSource) :=
  .mono .ref (.word (by decide) (by decide))

theorem parseLiteral_mirrors : Mirrors next (.ref .literal) (Parser.parseLiteral next) (Parser.parseLiteral listSource) :=
  .mono .ref (.word (by decide) (by decide))

set_option linter.unusedSectionVars false in
mutual

theorem parseTreeNode_mirrors : ∀ {fuel fuel'}, fuel ≤ fuel' →
    Mirrors next (.ref .treeNode) (Parser.parseTreeNode next fuel) (Parser.parseTreeNode listSource fuel')
  | 0, _, _ => .outOfFuel
  | fuel + 1, fuel' + 1, le => by
    apply Mirrors.mono .ref
    rw [Parser.parseTreeNode, Parser.parseTreeNode]
    apply Mirrors.seq parseNodeName_mirrors
    intro name
    apply Mirrors.seq (.needToken (by decide) (by decide))
    intro _
    apply Mirrors.seq (parseNodeArgs_mirrors (Nat.le_of_succ_le_succ le))
    intro args
    exact .after (.needToken (by decide) (by decide)) fun _ => .newNode
  termination_by structural fuel => fuel

theorem parseNodeArgs_mirrors : ∀ {fuel fuel'}, fuel ≤ fuel' →
    Mirrors next (.ref .nodeArgs) (Parser.parseNodeArgs next fuel) (Parser.parseNodeArgs listSource fuel')
  | 0, _, _ => .outOfFuel
  | fuel + 1, fuel' + 1, le => by
    apply Mirrors.mono .ref
    rw [Parser.parseNodeArgs, Parser.parseNodeArgs]
    apply Mirrors.peek
    · apply Mirrors.mono .altLeft
      exact .after (parseNodeArgList_mirrors (Nat.le_of_succ_le_succ le)) fun _ => .newNode
    · apply Mirrors.peek
      · apply Mirrors.mono .altRight
        exact .after parseLiteral_mirrors fun _ => .newNode
      · exact .missedToken
  termination_by structural fuel => fuel

theorem parseNodeArgList_mirrors : ∀ {fuel fuel'}, fuel ≤ fuel' →
    Mirrors next (.star (.ref .nodeArg)) (Parser.parseNodeArgList next fuel) (Parser.parseNodeArgList listSource fuel')
  | 0, _, _ => .outOfFuel
  | fuel + 1, fuel' + 1, le => by
    rw [Parser.parseNodeArgList, Parser.parseNodeArgList]
    apply Mirrors.peek
    · apply Mirrors.mono Derived.star_of_seq
      apply Mirrors.seq (parseNodeArg_mirrors (Nat.le_of_succ_le_succ le))
      intro arg
      exact .after (parseNodeArgList_mirrors (Nat.le_of_succ_le_succ le)) fun _ => .pure
    · exact .pure .starNil
  termination_by structural fuel => fuel

theorem parseNodeArg_mirrors : ∀ {fuel fuel'}, fuel ≤ fuel' →
    Mirrors next (.ref .nodeArg) (Parser.parseNodeArg next fuel) (Parser.parseNodeArg listSource fuel')
  | 0, _, _ => .outOfFuel
  | fuel + 1, fuel' + 1, le => by
    apply Mirrors.mono .ref
    rw [Parser.parseNodeArg, Parser.parseNodeArg]
    apply Mirrors.dotted
    apply Mirrors.seq parseArgName_mirrors
    intro name
    apply Mirrors.seq (.needToken (by decide) (by decide))
    intro _
    exact .after (parseArgValue_mirrors (Nat.le_of_succ_le_succ le)) fun _ => .newNode
  termination_by structural fuel => fuel

theorem parseArgValue_mirrors : ∀ {fuel fuel'}, fuel ≤ fuel' →
    Mirrors next (.ref .argValue) (Parser.parseArgValue next fuel) (Parser.parseArgValue listSource fuel')
  | 0, _, _ => .outOfFuel
  | fuel + 1, fuel' + 1, le => by
    apply Mirrors.mono .ref
    rw [Parser.parseArgValue, Parser.parseArgValue]
    apply Mirrors.peek
    · apply Mirrors.mono .altLeft
      exact .after (parseTreeNode_mirrors (Nat.le_of_succ_le_succ le)) fun _ => .newNode
    · rw [tryToken_bind, tryToken_bind]
      apply Mirrors.peek
      · apply Mirrors.mono fun word => .altRight (.altLeft word)
        apply Mirrors.seq (.needToken (by decide) (by decide))
        intro _
        apply Mirrors.seq (.needToken (by decide) (by decide))
        intro _
        apply Mirrors.seq parseNodeName_mirrors
        intro base
        apply Mirrors.seq (.needToken (by decide) (by decide))
        intro _
        apply Mirrors.seq (.needToken (by decide) (by decide))
        intro _
        apply Mirrors.seq (parseListElems_mirrors (Nat.le_of_succ_le_succ le))
        intro elems
        exact .after (.needToken (by decide) (by decide)) fun _ => .bind .newNode fun _ => .newNode
      · apply Mirrors.peek
        · apply Mirrors.mono fun word => .altRight (.altRight word)
          exact .after parseLiteral_mirrors fun _ => .newNode
        · exact .missedToken
  termination_by structural fuel => fuel

theorem parseListElems_mirrors : ∀ {fuel fuel'}, fuel ≤ fuel' →
    Mirrors next (.star (.ref .listElem)) (Parser.parseListElems next fuel) (Parser.parseListElems listSource fuel')
  | 0, _, _ => .outOfFuel
  | fuel + 1, fuel' + 1, le => by
    rw [Parser.parseListElems, Parser.parseListElems]
    apply Mirrors.peek
    · apply Mirrors.mono Derived.star_of_seq
      apply Mirrors.seq (parseListElem_mirrors (Nat.le_of_succ_le_succ le))
      intro elem
      exact .after (parseListElems_mirrors (Nat.le_of_succ_le_succ le)) fun _ => .pure
    · exact .pure .starNil
  termination_by structural fuel => fuel

theorem parseListElem_mirrors : ∀ {fuel fuel'}, fuel ≤ fuel' →
    Mirrors next (.ref .listElem) (Parser.parseListElem next fuel) (Parser.parseListElem listSource fuel')
  | 0, _, _ => .outOfFuel
  | fuel + 1, fuel' + 1, le => by
    apply Mirrors.mono .ref
    rw [Parser.parseListElem, Parser.parseListElem]
    apply Mirrors.seq (.needToken (by decide) (by decide))
    intro _
    apply Mirrors.index
    intro idx
    apply Mirrors.seq (.needToken (by decide) (by decide))
    intro _
    apply Mirrors.seq (.needToken (by decide) (by decide))
    intro _
    exact .after (parseTreeNode_mirrors (Nat.le_of_succ_le_succ le)) fun _ => .newNode
  termination_by structural fuel => fuel

end

end Methods

end CxxpyTree
