import CxxpyTree.ParserOutcome
import CxxpyTree.StoredRun

/-! Where the parser stops on tokens that are not a sentence, and what the pools of its `AST` have to do with it. -/

namespace CxxpyTree
open Machine Store

section Tokens
variable {toks before before' : List Token} {eos tok tok' : Token}

/-- Behind `before` the sequence goes on with `tok`, but no sentence does. -/
def FirstOffending (toks before : List Token) (tok : Token) : Prop :=
  (∃ rest, toks = before ++ tok :: rest) ∧ Viable before ∧ ¬ Viable (before ++ [tok])

theorem FirstOffending.not_shorter (first : FirstOffending toks before tok) (other : FirstOffending toks before' tok')
    {more : List Token} (longer : before' = before ++ more) : more = [] := by
  obtain ⟨⟨rest, rfl⟩, -, stuck⟩ := first
  obtain ⟨⟨rest', split⟩, viable, -⟩ := other
  cases more with
  | nil => rfl
  | cons head more =>
    rw [longer, List.append_assoc] at split
    obtain ⟨rfl, -⟩ := List.cons.inj (List.append_cancel_left split)
    have shorter : Viable (before ++ [tok] ++ more) := by
      rw [List.append_assoc]
      exact longer ▸ viable
    exact absurd shorter.of_append stuck

theorem FirstOffending.unique (first : FirstOffending toks before tok) (other : FirstOffending toks before' tok') :
    before' = before ∧ tok' = tok := by
  obtain ⟨rest, split⟩ := first.1
  obtain ⟨rest', split'⟩ := other.1
  have same : before' = before := by
    rcases List.append_eq_append_iff.mp (split.symm.trans split') with ⟨more, longer, -⟩ | ⟨more, longer, -⟩
    · rw [longer, first.not_shorter other longer, List.append_nil]
    · rw [longer, other.not_shorter first longer, List.append_nil]
  rw [split', same] at split
  exact ⟨same, (List.cons.inj (List.append_cancel_left split)).1⟩

/-- Tokens at which the parser stops, whatever follows, are in no sentence that begins as these do. -/
theorem not_viable {stop : Stop} (again : ∀ rest, parseTokens (before ++ rest) = .error stop) : ¬ Viable before := by
  rintro ⟨more, words, eos, complete, ends, sentence, range⟩
  obtain ⟨tree, accepted⟩ := parseTokens_sentence ends sentence range
  have refused := again more
  rw [complete, accepted] at refused
  cases refused

/-- On tokens that are not a sentence the parser stops with an error at the first token that no
sentence goes on with; a number out of range is such a token. -/
theorem parseTokens_stops_first (inner : ∀ tok ∈ toks, tok.type ≠ .eos) (ends : eos.type = .eos)
    (wrong : ¬ (Sentence .tree toks ∧ NumsInRange toks)) :
    ∃ before tok msg, FirstOffending (toks ++ [eos]) before tok ∧
      (∀ before' tok', FirstOffending (toks ++ [eos]) before' tok' → before' = before ∧ tok' = tok) ∧
      parseTokens (toks ++ [eos]) = .error (.error ⟨tok.pos, msg⟩) := by
  have outcome : Outcome listSource (toks ++ [eos]) parseTokens (parseTokens (toks ++ [eos])) :=
    parse_outcome (parseTokens_fueled (toks ++ [eos]))
  generalize parseTokens (toks ++ [eos]) = res at outcome ⊢
  suffices stops : ∃ before tok msg, FirstOffending (toks ++ [eos]) before tok ∧ res = .error (.error ⟨tok.pos, msg⟩) by
    obtain ⟨before, tok, msg, first, error⟩ := stops
    exact ⟨before, tok, msg, first, fun _ _ other => first.unique other, error⟩
  cases outcome with
  | accepted scans word isEos =>
    have split := (List.cons.inj scans.split).2
    rw [split_at_eos inner isEos split] at word
    exact absurd ⟨word.derives, word.range⟩ wrong
  | @stuck before tok rest msg scans begun again =>
    have stuck : ¬ Viable (before ++ [tok]) := by
      apply not_viable
      intro rest
      rw [List.append_assoc]
      exact again tok rest rfl
    exact ⟨before, tok, msg, ⟨⟨rest, (List.cons.inj scans.split).2⟩, begun.viable, stuck⟩, rfl⟩
  | @refused before tok last rest msg scans begun unfit =>
    have split : toks ++ [eos] = before ++ tok :: last :: rest :=
      (List.cons.inj scans.split).2.trans (List.append_assoc before [tok] _)
    have stuck : ¬ Viable (before ++ [tok]) := fun viable => unfit viable.inRange
    exact ⟨before, tok, msg, ⟨⟨_, split⟩, begun.viable, stuck⟩, rfl⟩
  | @starved eaten last final _ scans step goesOn =>
    -- a list runs out behind its EOS, which no sentence has
    cases final with
    | cons => cases step
    | nil =>
      rw [← scans.split] at goesOn
      exact absurd ends goesOn.inner

end Tokens

/-- The nodes that a parse of these tokens makes, also one that fails. -/
def tokenNodes (toks : List Token) : List AstNode :=
  (finalState (Parser.parse listSource (2 * toks.length + 8) { src := toks })).pool

/-- A parse of these tokens into an `AST` that was just constructed. -/
def Stored.parseTokens (layout : Layout) (toks : List Token) (ast : Store.AST) : Except StoredStop Store.AST :=
  match Stored.parse listSource (pure ⟨⟩) layout (2 * toks.length + 8) ({ src := toks }, ast) with
  | .ok _ (_, ast) => .ok ast
  | .error stop _ => .error stop

section Pools
variable {layout : Layout} {nodeHeap rawHeap : Heap} {ast : Store.AST} (made : Store.new nodeHeap rawHeap = some ast)
variable {toks : List Token}
include made

theorem storedTokens_error (room : ast.pools.Fit layout (tokenNodes toks)) {stop : Stop}
    (stopped : parseTokens toks = .error stop) : Stored.parseTokens layout toks ast = .error (.parser stop) := by
  obtain ⟨fresh, valid⟩ := Store.new_valid made
  have runs := @storedParse_paid _ listSource (pure ⟨⟩) layout fresh ast { src := toks } (2 * toks.length + 8) _ valid
    (new_empty made) rfl (by rw [parse_undumped]; exact room)
  rw [parse_undumped] at runs
  unfold parseTokens at stopped
  unfold Stored.parseTokens
  cases ran : Parser.parse listSource (2 * toks.length + 8) { src := toks } with
  | ok tree s' =>
    simp only [Parser.result, ran] at stopped
    cases stopped
  | error stop' s' =>
    obtain ⟨t', same⟩ := runs.of_error ran
    simp only [Parser.result, ran] at stopped
    cases stopped
    rw [same]

theorem storedTokens_short (full : ¬ ast.pools.Fit layout (tokenNodes toks)) :
    ∃ what, Stored.parseTokens layout toks ast = .error (.store (.alloc (.badAlloc what))) := by
  obtain ⟨fresh, valid⟩ := Store.new_valid made
  obtain ⟨what, t', stopped⟩ :=
    @storedParse_short _ listSource (pure ⟨⟩) layout fresh ast { src := toks } (2 * toks.length + 8) _ valid
      (new_empty made) rfl (by rw [parse_undumped]; exact full)
  exact ⟨what, by rw [Stored.parseTokens, stopped]⟩

/-- With room for the nodes that it makes, the parser raises one error on tokens that are not a sentence, at the first
that no sentence goes on with. Without, it ends with `bad_alloc`. -/
theorem error_at_first_offending {eos : Token} (inner : ∀ tok ∈ toks, tok.type ≠ .eos) (ends : eos.type = .eos)
    (wrong : ¬ (Sentence .tree toks ∧ NumsInRange toks)) :
    ∃ before tok msg, FirstOffending (toks ++ [eos]) before tok ∧
      (∀ before' tok', FirstOffending (toks ++ [eos]) before' tok' → before' = before ∧ tok' = tok) ∧
      (ast.pools.Fit layout (tokenNodes (toks ++ [eos])) →
        Stored.parseTokens layout (toks ++ [eos]) ast = .error (.parser (.error ⟨tok.pos, msg⟩))) ∧
      (¬ ast.pools.Fit layout (tokenNodes (toks ++ [eos])) →
        ∃ what, Stored.parseTokens layout (toks ++ [eos]) ast = .error (.store (.alloc (.badAlloc what)))) := by
  obtain ⟨before, tok, msg, first, only, stops⟩ := parseTokens_stops_first inner ends wrong
  exact ⟨before, tok, msg, first, only, fun room => storedTokens_error made room stops, storedTokens_short made⟩

end Pools

/-- In `A(.b)` the parenthesis closes too early. -/
theorem error_at_first_offending_paren :
    let layout : Layout := ⟨fun _ => 24, fun _ => ⟨3⟩⟩
    let toks : List Token := [⟨⟨1, 1⟩, .ident, ['A']⟩, ⟨⟨1, 2⟩, .openParen, ['(']⟩, ⟨⟨1, 3⟩, .dot, ['.']⟩,
      ⟨⟨1, 4⟩, .name, ['b']⟩, ⟨⟨1, 5⟩, .closeParen, [')']⟩]
    let eos : Token := ⟨⟨1, 6⟩, .eos, []⟩
    ∃ before tok msg, FirstOffending (toks ++ [eos]) before tok ∧
      (∀ before' tok', FirstOffending (toks ++ [eos]) before' tok' → before' = before ∧ tok' = tok) ∧
      (storeAt.pools.Fit layout (tokenNodes (toks ++ [eos])) →
        Stored.parseTokens layout (toks ++ [eos]) storeAt = .error (.parser (.error ⟨tok.pos, msg⟩))) ∧
      (¬ storeAt.pools.Fit layout (tokenNodes (toks ++ [eos])) →
        ∃ what, Stored.parseTokens layout (toks ++ [eos]) storeAt = .error (.store (.alloc (.badAlloc what)))) := by
  intro layout toks eos
  have terminals : ∀ tok ∈ toks, tok.type ≠ .bos ∧ tok.type ≠ .eos := by decide
  have stops : parseTokens (toks ++ [eos]) = .error (.error ⟨⟨1, 5⟩, .expectedToken .equal .closeParen⟩) := by rfl
  apply error_at_first_offending storeAt_new (by decide) rfl
  intro sentence
  obtain ⟨tree, fits⟩ := (sentence_iff_fits toks).mp sentence
  have accepted := (@parseTokens_eq_ok_iff toks eos terminals rfl tree).mpr fits
  rw [stops] at accepted
  cases accepted

/-- A name alone. -/
def nameOnly (str : CStr) : List Token := [⟨⟨1, 1⟩, .ident, str⟩]

def nameEnd (str : CStr) : Token := ⟨⟨1, 1 + str.length⟩, .eos, []⟩

theorem nameOnly_nodes (str : CStr) : tokenNodes (nameOnly str ++ [nameEnd str]) = [.nodeName ⟨cstr str⟩] := rfl

theorem nameOnly_wrong (str : CStr) : ¬ Sentence .tree (nameOnly str) := by
  intro sentence
  have short := @parseTokens_sentence _ (nameEnd str) rfl sentence (by
    intro tok member
    cases List.mem_singleton.mp member
    exact nofun)
  obtain ⟨tree, accepted⟩ := short
  cases accepted

theorem nameOnly_short {layout : Layout} {str : CStr} (word : cstr str = str) (long : str.length = 2 ^ 16) :
    ¬ storeAt.pools.Fit layout (tokenNodes (nameOnly str ++ [nameEnd str])) := by
  have full : storeAt.rawAlloc.take 65537 1 = none := by decide +kernel
  have bytes : (1 + str.length) % wordSize = 65537 := by
    rw [long]
    decide
  intro room
  obtain ⟨_, added⟩ := Option.isSome_iff_exists.mp room
  rw [nameOnly_nodes, word, List.foldlM_cons] at added
  obtain ⟨_, added, -⟩ := Option.bind_eq_some_iff.mp added
  obtain ⟨_, copied, -⟩ := Option.bind_eq_some_iff.mp added
  obtain ⟨_, copied, -⟩ := Option.bind_eq_some_iff.mp copied
  rw [Part.copy, bytes] at copied
  cases full.symm.trans copied

/-- A name of `2 ^ 16` characters is too long for `raw_alloc`, and its node is made before the parser looks at the
token behind it, which no sentence goes on with. -/
theorem error_not_at_first_offending :
    let layout : Layout := ⟨fun _ => 24, fun _ => ⟨3⟩⟩
    let str : CStr := List.replicate (2 ^ 16) 'A'
    (∀ tok ∈ nameOnly str, tok.type ≠ .eos) ∧ (nameEnd str).type = .eos ∧
      ¬ (Sentence .tree (nameOnly str) ∧ NumsInRange (nameOnly str)) ∧
      ¬ ∃ err, Stored.parseTokens layout (nameOnly str ++ [nameEnd str]) storeAt = .error (.parser (.error err)) := by
  intro layout str
  refine ⟨List.forall_mem_singleton.mpr nofun, rfl, fun both => nameOnly_wrong str both.1, ?_⟩
  have word : cstr str = str := cstr_of_nul_free fun inside => absurd (List.eq_of_mem_replicate inside) (by decide)
  obtain ⟨what, broke⟩ := storedTokens_short storeAt_new (@nameOnly_short layout str word List.length_replicate)
  rintro ⟨err, stopped⟩
  cases broke.symm.trans stopped

end CxxpyTree
