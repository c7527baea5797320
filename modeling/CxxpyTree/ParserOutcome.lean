import CxxpyTree.Mirror

/-! What a whole run over a source comes to, read off the tokens that it has scanned. -/

namespace CxxpyTree

open Ebnf Machine

variable {σ : Type}

/-- Behind these tokens the parser reads another: they begin a sentence, and the numbers in front of
the last token are in range. -/
def GoesOn (toks : List Token) : Prop := (∃ more, Sentence .tree (toks ++ more)) ∧ NumsInRange toks.dropLast

namespace GoesOn
variable {u : List Token} {tok : Token}

theorem start : GoesOn [] := by
  obtain ⟨words, word⟩ := Derived.exists_word (.ref .tree)
  exact ⟨⟨words, word.derives⟩, nofun⟩

/-- A number that is current has not been looked at, only its type. -/
theorem of_begins {other : Token} (begun : Begins (.ref .tree) (u ++ [other])) (same : other.type = tok.type) :
    GoesOn (u ++ [tok]) := by
  obtain ⟨more, derives, range⟩ := begun
  constructor
  · refine ⟨more, derives.congr_kind ?_⟩
    simp [same]
  · rw [List.dropLast_concat]
    intro tok member
    exact range tok (by simp [member])

/-- A sentence may go on behind the tokens with any values of the numbers to come. -/
theorem completed {v : List Token} (goesOn : GoesOn (u ++ tok :: v)) :
    ∃ other rest, other.type = tok.type ∧ Sentence .tree (u ++ other :: rest) ∧ NumsInRange (u ++ other :: rest) := by
  obtain ⟨⟨more, sentence⟩, range⟩ := goesOn
  let zero (tok : Token) : Token := { tok with lex := ['0'] }
  refine ⟨zero tok, (v ++ more).map zero, rfl, sentence.congr_kind ?_, ?_⟩
  · simp [zero, Function.comp_def]
  · intro other member
    rcases List.mem_append.mp member with before | behind
    · apply range other
      rw [List.dropLast_append_cons]
      exact List.mem_append_left _ before
    · obtain ⟨tok', -, rfl⟩ := List.mem_map.mp (show other ∈ (tok :: (v ++ more)).map zero from behind)
      exact zero_inRange

theorem inRange {v : List Token} {last : Token} (goesOn : GoesOn (u ++ tok :: last :: v)) : tok.InRange := by
  apply goesOn.2
  rw [List.dropLast_append_cons]
  simp

theorem inner {v : List Token} (goesOn : GoesOn (u ++ tok :: v)) : tok.type ≠ .eos := by
  obtain ⟨⟨more, sentence⟩, -⟩ := goesOn
  have all : ∀ symbol, (grammar symbol).All (· ≠ TokenType.eos) := by
    intro symbol
    cases symbol <;> simp [grammar, Rhs.All]
  exact sentence.kind_of_mem all trivial tok (by simp)

end GoesOn

/-- How a run comes to its end: with the tree of a sentence, at its current token, behind a number
out of range, or when the source fails to give a token. The scan starts from the token that the
parser holds before the first call, and `run` is the run over a list of the scanned tokens. -/
inductive Outcome (next : TokenSource σ) (src : σ) (run : List Token → Except Stop Tree) : Except Stop Tree → Prop where
  | accepted {eaten last final tree} (scans : Scans next {} src ({} :: eaten) last final)
      (word : Derived (.ref .tree) eaten) (ends : last.type = .eos)
      (again : ∀ rest, run (eaten ++ last :: rest) = .ok tree) : Outcome next src run (.ok tree)
  | stuck {eaten last final msg} (scans : Scans next {} src ({} :: eaten) last final) (begun : Begins (.ref .tree) eaten)
      (again : ∀ tok rest, tok.type = last.type → run (eaten ++ tok :: rest) = .error (.error ⟨tok.pos, msg⟩)) :
      Outcome next src run (.error (.error ⟨last.pos, msg⟩))
  | refused {eaten tok last final msg} (scans : Scans next {} src ({} :: eaten ++ [tok]) last final)
      (begun : Begins (.ref .tree) eaten) (unfit : ¬ tok.InRange)
      (again : ∀ rest, run (eaten ++ [tok] ++ last :: rest) = .error (.error ⟨tok.pos, msg⟩)) :
      Outcome next src run (.error (.error ⟨tok.pos, msg⟩))
  | starved {eaten last final stop} (scans : Scans next {} src eaten last final)
      (step : next (last.type == .dot) final = .error stop) (goesOn : GoesOn (eaten ++ [last]).tail)
      (again : run (eaten ++ [last]).tail = .error .assertFailed) : Outcome next src run (.error stop)

/-- `Parser::parse` behind its first token. -/
def Parser.parseRest (next : TokenSource σ) (fuel : Nat) : Parser σ Tree := do
  let tree ← Parser.parseTree next fuel
  Parser.checkToken .eos
  return tree

theorem parseRest_mirrors {next : TokenSource σ} {fuel fuel' : Nat} (le : fuel ≤ fuel') {s : ParserState σ}
    (ctxt : s.argCtxt = false) :
    wp (Parser.parseRest next fuel)
      (fun tree s' => s'.tok.type = .eos ∧
        ∃ eaten, Returns next (.ref .tree) (Parser.parseRest listSource fuel') s tree s' eaten)
      (Stops next (.ref .tree) (Parser.parseRest listSource fuel') s) s := by
  have tree : Mirrors next (.ref .tree) (Parser.parseTree next fuel) (Parser.parseTree listSource fuel') :=
    .mono .ref (.after (parseTreeNode_mirrors le) fun _ => .newNode)
  apply wp_bind.mpr
  apply (tree s ctxt).mono
  · rintro tree s₁ ⟨ctxt₁, eaten, scans, word, again⟩
    apply wp_bind.mpr
    apply wp_checkToken
    · intro isEos
      refine ⟨isEos, eaten, scans, word, ?_⟩
      intro tok rest same
      rw [Parser.parseRest, bind_of_ok (again tok rest same)]
      exact bind_of_ok (@checkToken_same _ .eos (s₁.on (tok :: rest)) (same.trans isEos))
    · intro other
      apply Stops.stuck scans (.of_derived word)
      intro tok rest same
      rw [Parser.parseRest, bind_of_ok (again tok rest same), ← same]
      rw [← same] at other
      exact ⟨_, bind_of_error (@checkToken_other _ .eos (s₁.on (tok :: rest)) other)⟩
  · exact fun stop s₁ stops => stops.map id fun _ _ t outcome => ⟨t, bind_of_error outcome⟩

/-- A run from the start of a source, against the runs over lists with at least its fuel. -/
private theorem wp_parse {next : TokenSource σ} {fuel fuel' : Nat} (le : fuel ≤ fuel') (src : σ)
    {run : List Token → Except Stop Tree}
    (same : ∀ toks, run toks = Parser.result (Parser.parse listSource fuel' { src := toks })) :
    wp (Parser.parse next fuel) (fun tree _ => Outcome next src run (.ok tree))
      (fun stop _ => stop = .outOfFuel ∨ Outcome next src run (.error stop)) { src } := by
  apply wp_bind.mpr
  apply wp_nextToken
  · intro tok src' step
    -- over a list `parse` has read its head when `parseRest` begins
    have start : ∀ head rest, run (head :: rest) = Parser.result
        (Parser.parseRest listSource fuel' (({ src := src', tok } : ParserState σ).on (head :: rest))) :=
      fun head rest => same (head :: rest)
    have scanned : ∀ {eaten last final}, Scans next tok src' eaten last final →
        Scans next {} src ({} :: eaten) last final := .cons step
    have along : ∀ {eaten last final}, Scans next tok src' eaten last final → ∀ other rest, other.type = last.type →
        run (eaten ++ other :: rest) = Parser.result
          (Parser.parseRest listSource fuel' (({ src := src', tok } : ParserState σ).on (eaten ++ other :: rest))) := by
      intro eaten last final scans other rest type
      obtain ⟨head, more, split, -⟩ := scans.head type rest
      rw [split, start]
    apply (parseRest_mirrors le rfl).mono
    · rintro tree s' ⟨isEos, eaten, scans, word, again⟩
      apply Outcome.accepted (scanned scans) word isEos
      intro rest
      rw [along scans _ rest rfl, again _ rest rfl]
      rfl
    · intro stop s' stops
      cases stops with
      | fuel => exact .inl rfl
      | stuck scans begun again =>
        refine .inr (.stuck (scanned scans) begun ?_)
        intro other rest type
        obtain ⟨t, outcome⟩ := again other rest type
        rw [along scans other rest type, outcome]
        rfl
      | refused scans begun unfit again =>
        refine .inr (.refused (scanned scans) begun unfit ?_)
        intro rest
        obtain ⟨t, outcome⟩ := again _ rest rfl
        rw [along scans _ rest rfl, outcome]
        rfl
      | starved scans step' begun again =>
        obtain ⟨other, type, begun⟩ := begun
        refine .inr (.starved (scanned scans) step' (.of_begins begun type) ?_)
        obtain ⟨t, outcome⟩ := again _ rfl
        rw [List.cons_append, List.tail_cons, along scans _ [] rfl, outcome]
        rfl
  · intro stop step
    refine .inr (@Outcome.starved _ _ _ _ [] {} src stop .nil step ?_ ?_)
    · exact .start
    · rw [same]
      rfl

namespace Outcome
variable {next : TokenSource σ} {src : σ} {run run' : List Token → Except Stop Tree} {res : Except Stop Tree}

/-- Two runs over lists that agree where the first has fuel enough. -/
theorem congr (same : ∀ toks, run toks ≠ .error .outOfFuel → run' toks = run toks) (outcome : Outcome next src run res) :
    Outcome next src run' res := by
  have onward : ∀ {toks res}, run toks = res → res ≠ .error .outOfFuel → run' toks = res := by
    rintro toks res rfl fueled
    exact same toks fueled
  cases outcome with
  | accepted scans word ends again => exact .accepted scans word ends fun rest => onward (again rest) nofun
  | stuck scans begun again => exact .stuck scans begun fun tok rest type => onward (again tok rest type) nofun
  | refused scans begun unfit again => exact .refused scans begun unfit fun rest => onward (again rest) nofun
  | starved scans step goesOn again => exact .starved scans step goesOn (onward again nofun)

end Outcome

/-- A scan of a list splits it at the token that is current in the end. -/
theorem Scans.split {tok last : Token} {toks eaten rest : List Token} (scans : Scans listSource tok toks eaten last rest) :
    tok :: toks = eaten ++ last :: rest := by
  induction scans with
  | nil => rfl
  | @cons tok src _ _ _ _ _ step _ ih =>
    cases src with
    | nil => cases step
    | cons head tail =>
      cases step
      rw [List.cons_append, ← ih]

/-- The parser asks for no token behind EOS. -/
theorem GoesOn.not_eos {next : TokenSource σ} {src final : σ} {eaten : List Token} {last : Token}
    (scans : Scans next {} src eaten last final) (goesOn : GoesOn (eaten ++ [last]).tail) : last.type ≠ .eos := by
  cases eaten with
  | nil =>
    cases scans
    exact nofun
  | cons head eaten => exact goesOn.inner

/-- Over a list the outcome is that of the list itself. -/
theorem Outcome.of_list {toks : List Token} {run : List Token → Except Stop Tree} {res : Except Stop Tree}
    (outcome : Outcome listSource toks run res) : run toks = res := by
  cases outcome with
  | accepted scans _ _ again =>
    rw [(List.cons.inj scans.split).2]
    exact again _
  | stuck scans _ again =>
    rw [(List.cons.inj scans.split).2]
    exact again _ _ rfl
  | refused scans _ _ again =>
    rw [(List.cons.inj scans.split).2]
    exact again _
  | @starved eaten last final stop scans step _ again =>
    cases final with
    | nil =>
      cases step
      have split := scans.split
      rw [← split] at again
      exact again
    | cons => cases step

private theorem parse_outcome_run {next : TokenSource σ} {fuel fuel' : Nat} (le : fuel ≤ fuel') {src : σ}
    (fueled : Parser.result (Parser.parse next fuel { src }) ≠ .error .outOfFuel) :
    Outcome next src (fun toks => Parser.result (Parser.parse listSource fuel' { src := toks }))
      (Parser.result (Parser.parse next fuel { src })) := by
  have run := @wp_parse _ next _ _ le src _ fun toks => rfl
  cases outcome : Parser.parse next fuel { src } with
  | ok tree s' => exact run.of_ok outcome
  | error stop s' =>
    rw [outcome] at fueled
    rcases run.of_error outcome with exhausted | stopped
    · exact absurd (congrArg Except.error exhausted) fueled
    · exact stopped

/-- A run that comes to an end does what the run over the list of its tokens does. -/
theorem parse_outcome {next : TokenSource σ} {fuel : Nat} {src : σ}
    (fueled : Parser.result (Parser.parse next fuel { src }) ≠ .error .outOfFuel) :
    Outcome next src parseTokens (Parser.result (Parser.parse next fuel { src })) := by
  apply (parse_outcome_run (Nat.le_refl fuel) fueled).congr
  intro toks enough
  -- both amounts of fuel do what the larger of them does
  have most := (parse_outcome_run (Nat.le_max_left fuel (2 * toks.length + 8)) enough).of_list
  exact (parse_outcome_run (Nat.le_max_right fuel _) (parseTokens_fueled toks)).of_list.symm.trans most

/-- A run is settled where it has come to: whatever follows, it is decided and does not go on; or it
goes on, and the source fails to give the next token. -/
inductive SettledAt (next : TokenSource σ) (eaten : List Token) (last : Token) (final : σ) : Except Stop Tree → Prop where
  | decided {res} (again : ∀ rest, parseTokens (eaten ++ last :: rest).tail = res) (inside : res ≠ .error .assertFailed)
      (ended : ∀ more, ¬ GoesOn (eaten ++ last :: more).tail) : SettledAt next eaten last final res
  | starved {stop} (step : next (last.type == .dot) final = .error stop) (goesOn : GoesOn (eaten ++ [last]).tail)
      (again : parseTokens (eaten ++ [last]).tail = .error .assertFailed) :
      SettledAt next eaten last final (.error stop)

def Settled (next : TokenSource σ) (src : σ) (res : Except Stop Tree) : Prop :=
  ∃ eaten last final, Scans next {} src eaten last final ∧ SettledAt next eaten last final res

section Settled
variable {next : TokenSource σ} {src : σ} {res res' : Except Stop Tree}

theorem Outcome.settled (outcome : Outcome next src parseTokens res) : Settled next src res := by
  cases outcome with
  | accepted scans word ends again =>
    exact ⟨_, _, _, scans, .decided again nofun fun more goesOn => goesOn.inner ends⟩
  | stuck scans begun again =>
    refine ⟨_, _, _, scans, .decided (fun rest => again _ rest rfl) nofun ?_⟩
    intro more goesOn
    obtain ⟨other, rest, type, sentence, range⟩ := goesOn.completed
    obtain ⟨tree, accepted⟩ := @parseTokens_sentence _ { type := .eos } rfl sentence range
    rw [List.append_assoc] at accepted
    exact absurd ((again other _ type).symm.trans accepted) nofun
  | @refused eaten tok last _ _ scans begun unfit again =>
    refine ⟨_, _, _, scans, .decided again nofun ?_⟩
    intro more goesOn
    have inside : GoesOn (eaten ++ tok :: last :: more) := by
      simpa using goesOn
    exact unfit inside.inRange
  | starved scans step goesOn again => exact ⟨_, _, _, scans, .starved step goesOn again⟩

/-- A run that is settled comes to nothing else further on. -/
theorem SettledAt.onward {eaten more : List Token} {last last' : Token} {final final' : σ}
    (first : SettledAt next eaten last final res) (second : SettledAt next (eaten ++ more) last' final' res')
    (scans : Scans next last final more last' final') : res' = res := by
  cases first with
  | decided again inside =>
    obtain ⟨rest, split⟩ := scans.begins
    have decided := again rest
    rw [← split, ← List.append_assoc] at decided
    cases second with
    | decided again' => exact (again' []).symm.trans decided
    | starved _ _ again' => exact absurd (decided.symm.trans again') inside
  | starved step goesOn again =>
    cases scans with
    | cons step' => exact absurd (step.symm.trans step') nofun
    | nil =>
      rw [List.append_nil] at second
      cases second with
      | decided again' inside' => exact absurd ((again' []).symm.trans again) inside'
      | starved step' => exact congrArg Except.error (Except.error.inj (step'.symm.trans step))

theorem Settled.unique (first : Settled next src res) (second : Settled next src res') : res' = res := by
  obtain ⟨eaten, last, final, scans, at_⟩ := first
  obtain ⟨eaten', last', final', scans', at_'⟩ := second
  rcases scans.compare scans' with ⟨more, rfl, onward⟩ | ⟨more, rfl, onward⟩
  · exact at_.onward at_' onward
  · exact (at_'.onward at_ onward).symm

end Settled

end CxxpyTree
