import CxxpyTree.ParserOutcome
import CxxpyTree.Tracing

/-! What the debug flag changes: the parse of a text with the tracing code, against the parse without. -/

namespace CxxpyTree

open Machine

/-- The assertions of the tracing code hold in a call of `next_token`. -/
structure CallFits (argCtxt : Bool) (s : Input) : Prop where
  spaces : (skipSpaces s).rest.length < s.rest.length → s.pos.width ≤ 6
  token : ∀ {tok s'}, nextToken argCtxt s = .ok (tok, s') →
    s'.pos.width ≤ 10 ∧ tok.pos.width ≤ 10 ∧ (cstr tok.lex).length ≤ 18

/-- They hold in each call behind tokens with which the parser goes on. -/
def TraceFits (s : Input) : Prop :=
  ∀ eaten last s', Scans nextToken {} s eaten last s' → GoesOn (eaten ++ [last]).tail → CallFits (last.type == .dot) s'

section Calls
variable {debug inputNle argCtxt : Bool} {s : Scanner} {tok : Token} {input : Input}

theorem sysAssert_true {holds : Bool} (true_ : holds = true) : sysAssert holds = .ok ⟨⟩ := if_pos true_

theorem sysAssert_false {holds : Bool} (false_ : ¬ holds = true) : sysAssert holds = .error .assertFailed := if_neg false_

theorem traceSpaces_fits
    (fits : debug = true → (skipSpaces input).rest.length < input.rest.length → input.pos.width ≤ 6) :
    ∃ past, (past = true → (skipSpaces input).rest = []) ∧ traceSpaces debug inputNle input = .ok past := by
  rw [traceSpaces]
  by_cases moved : debug = true ∧ (skipSpaces input).rest.length < input.rest.length
  · refine ⟨(skipSpaces input).rest.isEmpty && inputNle, ?_, ?_⟩
    · intro past
      exact List.isEmpty_iff.mp (Bool.and_eq_true_iff.mp past).1
    · rw [if_pos moved, sysAssert_true (decide_eq_true (fits moved.1 moved.2))]
      rfl
  · refine ⟨false, nofun, ?_⟩
    rw [if_neg moved]
    rfl

theorem traceSpaces_wide (moved : (skipSpaces input).rest.length < input.rest.length) (wide : ¬ input.pos.width ≤ 6) :
    traceSpaces true inputNle input = .error .assertFailed := by
  rw [traceSpaces, if_pos ⟨rfl, moved⟩, sysAssert_false (by simpa using wide)]
  rfl

theorem traceToken_eq_ok {pos : Pos} : traceToken pos tok = .ok ⟨⟩ ↔
    pos.width ≤ 10 ∧ tok.pos.width ≤ 10 ∧ (cstr tok.lex).length ≤ 18 := by
  have named : (tokenName tok.type).length ≤ 5 + 8 := by
    cases tok.type <;> decide
  have asserted : ∀ {holds : Bool}, sysAssert holds = .ok ⟨⟩ ↔ holds = true := by
    intro holds
    cases holds <;> simp [sysAssert]
  simp only [traceToken, except_then_eq_ok, asserted, decide_eq_true_eq]
  omega

theorem traceToken_error {pos : Pos} {stop : Stop} (failed : traceToken pos tok = .error stop) : stop = .assertFailed := by
  have asserted : ∀ {holds : Bool}, sysAssert holds = .error stop → stop = .assertFailed := by
    intro holds failed
    cases holds <;> cases failed
    rfl
  simp only [traceToken, except_bind_eq_error] at failed
  rcases failed with failed | ⟨_, -, failed | ⟨_, -, failed | ⟨_, -, failed⟩⟩⟩
  · exact asserted failed
  · exact asserted failed
  · exact asserted failed
  · exact asserted failed

/-- A call whose assertions hold does what `next_token` does. The pointer is past the end at most
behind the last token. -/
theorem traced_of_fits (present : s.past = false) (fits : debug = true → CallFits argCtxt s.input) :
    ∃ past, (past = true → (skipSpaces s.input).rest = []) ∧
      tracedNextToken debug inputNle argCtxt s =
        (nextToken argCtxt s.input).map fun view => (view.1, { input := view.2, past }) := by
  obtain ⟨past, atEnd, skipped⟩ := @traceSpaces_fits debug inputNle s.input fun on => (fits on).spaces
  refine ⟨past, atEnd, ?_⟩
  rw [tracedNextToken, sysAssert_true (by rw [present]; rfl), skipped]
  cases step : nextToken argCtxt s.input with
  | error stop => rfl
  | ok view =>
    have shown : dumpToken debug view.2.pos view.1 = .ok ⟨⟩ := by
      cases debug with
      | true => exact traceToken_eq_ok.mpr ((fits rfl).token step)
      | false => rfl
    change (do dumpToken debug view.2.pos view.1; return (view.1, ({ input := view.2, past } : Scanner))) = _
    rw [shown]
    rfl

/-- A call with an assertion that fails ends there. -/
theorem traced_of_unfit (unfit : ¬ CallFits argCtxt s.input) :
    tracedNextToken true inputNle argCtxt s = .error .assertFailed := by
  rw [tracedNextToken]
  cases past : s.past with
  | true => rfl
  | false =>
    by_cases spaces : (skipSpaces s.input).rest.length < s.input.rest.length → s.input.pos.width ≤ 6
    · obtain ⟨past, -, skipped⟩ := @traceSpaces_fits true inputNle s.input fun _ => spaces
      rw [skipped]
      cases step : nextToken argCtxt s.input with
      | error stop =>
        refine absurd ⟨spaces, ?_⟩ unfit
        intro tok s' returned
        rw [step] at returned
        cases returned
      | ok view =>
        change (do dumpToken true view.2.pos view.1; return (view.1, ({ input := view.2, past } : Scanner))) = _
        cases shown : dumpToken true view.2.pos view.1 with
        | error stop => rw [traceToken_error shown]; rfl
        | ok _ =>
          refine absurd ⟨spaces, ?_⟩ unfit
          intro tok s' returned
          rw [step] at returned
          cases returned
          exact traceToken_eq_ok.mp shown
    · obtain ⟨moved, wide⟩ := Classical.not_imp.mp spaces
      rw [traceSpaces_wide moved wide]
      rfl

end Calls

section Scan
variable {debug inputNle argCtxt : Bool} {s s' : Scanner} {tok last : Token} {eaten : List Token}

theorem traced_ok (returned : tracedNextToken debug inputNle argCtxt s = .ok (tok, s')) :
    nextToken argCtxt s.input = .ok (tok, s'.input) ∧ (debug = true → CallFits argCtxt s.input) ∧
      (s'.past = true → tok.type = .eos) := by
  have fits : debug = true → CallFits argCtxt s.input := by
    rintro rfl
    by_contra unfit
    exact absurd ((traced_of_unfit unfit).symm.trans returned) nofun
  have present : s.past = false := by
    cases past : s.past with
    | false => rfl
    | true =>
      rw [tracedNextToken, past] at returned
      cases returned
  obtain ⟨past, atEnd, same⟩ := @traced_of_fits debug inputNle argCtxt s present fits
  rw [same] at returned
  cases step : nextToken argCtxt s.input with
  | error stop =>
    rw [step] at returned
    cases returned
  | ok view =>
    rw [step] at returned
    cases returned
    refine ⟨rfl, fits, fun past => ?_⟩
    rcases nextToken_ok step with ⟨isEos, -⟩ | ⟨item, w, spelled, split, -⟩
    · rw [isEos]
    · have some := spelled.length_pos
      rw [atEnd past] at split
      rw [(List.append_eq_nil_iff.mp split.symm).1] at some
      exact absurd some (Nat.lt_irrefl 0)

theorem traced_error {stop : Stop} (stopped : tracedNextToken debug inputNle argCtxt s = .error stop) :
    stop = .assertFailed ∨ nextToken argCtxt s.input = .error stop := by
  cases past : s.past with
  | true =>
    rw [tracedNextToken, past] at stopped
    cases stopped
    exact .inl rfl
  | false =>
    by_cases fits : debug = true → CallFits argCtxt s.input
    · obtain ⟨past, -, same⟩ := @traced_of_fits debug inputNle argCtxt s past fits
      rw [same] at stopped
      cases step : nextToken argCtxt s.input with
      | ok view =>
        rw [step] at stopped
        cases stopped
      | error stop' =>
        rw [step] at stopped
        cases stopped
        exact .inr rfl
    · obtain ⟨rfl, unfit⟩ := Classical.not_imp.mp fits
      rw [traced_of_unfit unfit] at stopped
      cases stopped
      exact .inl rfl

theorem scans_of_traced (scans : Scans (tracedNextToken debug inputNle) tok s eaten last s') :
    Scans nextToken tok s.input eaten last s'.input := by
  induction scans with
  | nil => exact .nil
  | cons step _ ih => exact .cons (traced_ok step).1 ih

theorem past_at_eos (scans : Scans (tracedNextToken debug inputNle) tok s eaten last s')
    (start : s.past = true → tok.type = .eos) : s'.past = true → last.type = .eos := by
  induction scans with
  | nil => exact start
  | cons step _ ih => exact ih (traced_ok step).2.2

/-- The assertions hold in each call of a scan. -/
theorem fits_inside {mid : Token} {behind : List Token} {input : Input}
    (scans : Scans (tracedNextToken true inputNle) tok s (eaten ++ mid :: behind) last s')
    (start : Scans nextToken tok s.input eaten mid input) : CallFits (mid.type == .dot) input := by
  obtain ⟨tok', t, left, right⟩ := scans.split_append
  cases right with
  | cons step rest =>
    obtain ⟨-, rfl⟩ := (scans_of_traced left).unique start
    exact (traced_ok step).2.1 rfl

theorem traced_shrinks : Shrinks (tracedNextToken debug inputNle) (fun s => s.input.rest.length) where
  step step := nextToken_shrinks.step (traced_ok step).1
  fueled := by
    intro ctxt s stopped
    rcases traced_error stopped with failed | stopped
    · cases failed
    · exact nextToken_shrinks.fueled stopped

end Scan

section Text
variable {debug : Bool} {type : InputType} {input : List Char}

theorem dump_silent (debug inputNle : Bool) : Silent (tracedNextToken debug inputNle) (dump debug)
    (fun tok s => dumpToken debug s.input.pos tok = .ok ⟨⟩) where
  dump := by
    intro s shown
    rw [dump, get_bind, shown]
    rfl
  next := by
    intro ctxt s tok s' returned
    cases debug with
    | false => rfl
    | true =>
      obtain ⟨step, fits, -⟩ := traced_ok returned
      exact traceToken_eq_ok.mpr ((fits rfl).token step)

theorem parseText_settled : Settled nextToken (Input.init type input) (parseText type input) :=
  (parse_outcome (parse_fueled nextToken_shrinks (by omega))).settled

theorem parseTextDebug_settled : Settled (tracedNextToken debug ((inputBytes type input).getLast? = some newline))
    { input := Input.init type input } (parseTextDebug debug type input) := by
  rw [parseTextDebug, parse_adds (dump_silent debug _)]
  exact (parse_outcome (parse_fueled traced_shrinks (by simp only; omega))).settled

/-- Where no assertion fails, the tracing code only adds output. -/
theorem parseTextDebug_eq (fits : debug = true → TraceFits (Input.init type input)) :
    parseTextDebug debug type input = parseText type input := by
  obtain ⟨eaten, last, s', scans, at_⟩ := @parseTextDebug_settled debug type input
  generalize parseTextDebug debug type input = res at at_ ⊢
  apply parseText_settled.unique
  refine ⟨eaten, last, s'.input, scans_of_traced scans, ?_⟩
  cases at_ with
  | decided again inside ended => exact .decided again inside ended
  | starved step goesOn again =>
    refine .starved ?_ goesOn again
    have present : s'.past = false :=
      Bool.eq_false_iff.mpr fun past => goesOn.not_eos scans (past_at_eos scans nofun past)
    obtain ⟨past, -, same⟩ := traced_of_fits present fun on => fits on eaten last s'.input (scans_of_traced scans) goesOn
    rw [same] at step
    cases called : nextToken (last.type == .dot) s'.input with
    | ok view =>
      rw [called] at step
      cases step
    | error stop =>
      rw [called] at step
      cases step
      rfl

/-- A parse without an assertion that fails comes to an end with a tree or with a `ParserError`. -/
theorem parseText_stops : (∃ tree, parseText type input = .ok tree) ∨ ∃ err, parseText type input = .error (.error err) := by
  have fueled : parseText type input ≠ .error .outOfFuel := parse_fueled nextToken_shrinks (by omega)
  obtain ⟨eaten, last, s', -, at_⟩ := @parseText_settled type input
  generalize parseText type input = res at at_ fueled ⊢
  cases res with
  | ok tree => exact .inl ⟨tree, rfl⟩
  | error stop =>
    cases stop with
    | error err => exact .inr ⟨err, rfl⟩
    | outOfFuel => exact absurd rfl fueled
    | assertFailed =>
      cases at_ with
      | decided _ inside => exact absurd rfl inside
      | starved step =>
        obtain ⟨err, same⟩ := nextToken_error step
        cases same

/-- A parse that comes to an end has made its calls without an assertion that failed. -/
theorem traceFits_of_ends (ends : parseTextDebug true type input ≠ .error .assertFailed) :
    TraceFits (Input.init type input) := by
  intro eaten last s' scans goesOn
  obtain ⟨eaten', last', s, scans', at_⟩ := @parseTextDebug_settled true type input
  generalize parseTextDebug true type input = res at at_ ends
  by_contra unfit
  -- the parse has not made the call
  have short : ∃ more, eaten = eaten' ++ more ∧ Scans nextToken last' s.input more last s' := by
    rcases scans.compare (scans_of_traced scans') with ⟨more, rfl, onward⟩ | behind
    · cases onward with
      | nil => exact ⟨[], by simp, .nil⟩
      | cons => exact absurd (fits_inside scans' scans) unfit
    · exact behind
  obtain ⟨more, rfl, onward⟩ := short
  cases at_ with
  | decided _ _ settled =>
    obtain ⟨rest, split⟩ := onward.begins
    rw [List.append_assoc, split] at goesOn
    exact settled rest goesOn
  | starved step =>
    cases onward with
    | nil =>
      rw [traced_of_unfit unfit] at step
      cases step
      exact ends rfl
    | cons step' =>
      rcases traced_error step with rfl | step
      · exact ends rfl
      · exact absurd (step.symm.trans step') nofun

end Text

end CxxpyTree
