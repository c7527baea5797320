import CxxpyTree.Grammar
import CxxpyTree.Parser

/-! Runs of the parser against the leaves of the tree it builds. -/

namespace CxxpyTree

open Machine

variable {σ : Type}

/-- The parser at `first`, its current token and source, eats tokens that fit the leaves and
stands at `last`. `arg_ctxt` holds at exactly the calls of `next_token` that follow a dot. -/
inductive Reads (next : TokenSource σ) : Token × σ → List Leaf → Token × σ → Prop where
  | nil {view} : Reads next view [] view
  | cons {tok src leaf leaves view last} (fits : leaf.Fits tok) (step : next (tok.type == .dot) src = .ok view)
      (rest : Reads next view leaves last) : Reads next (tok, src) (leaf :: leaves) last

namespace Reads
variable {next : TokenSource σ} {first last : Token × σ} {a b : List Leaf}

theorem append {middle} (left : Reads next first a middle) (right : Reads next middle b last) :
    Reads next first (a ++ b) last := by
  induction left with
  | nil => exact right
  | cons fits step _ ih => exact .cons fits step (ih right)

theorem split (both : Reads next first (a ++ b) last) :
    ∃ middle, Reads next first a middle ∧ Reads next middle b last := by
  induction a generalizing first with
  | nil => exact ⟨first, .nil, both⟩
  | cons leaf a ih =>
    cases both with
    | cons fits step rest =>
      obtain ⟨middle, left, right⟩ := ih rest
      exact ⟨middle, .cons fits step left, right⟩

theorem head {leaf : Leaf} (reads : Reads next first (leaf :: a) last) : leaf.Fits first.1 := by
  cases reads with
  | cons fits _ _ => exact fits

/-- The text of a leaf ends before any NUL of its token. -/
theorem nul_free {type : TokenType} {str : CStr} (reads : Reads next first a last) (member : Leaf.lexeme type str ∈ a) :
    nul ∉ str := by
  induction reads with
  | nil => cases member
  | cons fits _ _ ih =>
    cases member with
    | head => rw [← fits.2]; exact nul_not_mem_cstr _
    | tail _ later => exact ih later

end Reads

/-- A measure of the source under which every token but EOS uses something up. -/
structure Shrinks (next : TokenSource σ) (size : σ → Nat) : Prop where
  step : ∀ {ctxt src tok src'}, next ctxt src = .ok (tok, src') →
    size src' + (if tok.type = .eos then 0 else 1) ≤ size src
  fueled : ∀ {ctxt src}, next ctxt src ≠ .error .outOfFuel

/-- The tokens the parser may still eat, the current one included. -/
def remaining (size : σ → Nat) (view : Token × σ) : Nat :=
  size view.2 + if view.1.type = .eos then 0 else 1

namespace ParserState

def view (s : ParserState σ) : Token × σ := (s.tok, s.src)

@[simp] theorem view_fst (s : ParserState σ) : s.view.1 = s.tok := rfl

end ParserState

section Calls
variable {next : TokenSource σ} {s : ParserState σ} {fail : Stop → ParserState σ → Prop}

theorem wp_nextToken {post : Unit → ParserState σ → Prop}
    (returned : ∀ tok src, next s.argCtxt s.src = .ok (tok, src) → post ⟨⟩ { s with tok, src })
    (stopped : ∀ stop, next s.argCtxt s.src = .error stop → fail stop s) :
    wp (Parser.nextToken next) post fail s := by
  simp only [Parser.nextToken, wp_bind, wp_get]
  cases outcome : next s.argCtxt s.src with
  | ok result => exact returned result.1 result.2 outcome
  | error stop => exact stopped stop outcome

/-- The state after the current token has been eaten. -/
def ParserState.eat (s : ParserState σ) (view : Token × σ) : ParserState σ :=
  { s with tok := view.1, src := view.2, prevTok := { s.tok with lex := cstr s.tok.lex } }

theorem wp_eatToken {post : Unit → ParserState σ → Prop}
    (returned : ∀ view, next s.argCtxt s.src = .ok view → post ⟨⟩ (s.eat view))
    (stopped : ∀ stop s', next s.argCtxt s.src = .error stop → fail stop s') :
    wp (Parser.eatToken next) post fail s := by
  simp only [Parser.eatToken, wp_bind, wp_modify]
  exact wp_nextToken (fun tok src => returned (tok, src)) fun stop => stopped stop _

theorem wp_checkToken {type : TokenType} {post : Unit → ParserState σ → Prop}
    (returned : s.tok.type = type → post ⟨⟩ s)
    (stopped : s.tok.type ≠ type → fail (.error ⟨s.tok.pos, .expectedToken type s.tok.type⟩) s) :
    wp (Parser.checkToken type) post fail s := by
  simp only [Parser.checkToken, wp_bind, wp_get, Parser.error]
  rw [wp_ite]
  exact ⟨fun other => stopped other, fun same => returned (not_not.mp same)⟩

theorem wp_needToken {type : TokenType} {post : Unit → ParserState σ → Prop}
    (returned : s.tok.type = type → ∀ view, next s.argCtxt s.src = .ok view → post ⟨⟩ (s.eat view))
    (missing : s.tok.type ≠ type → fail (.error ⟨s.tok.pos, .expectedToken type s.tok.type⟩) s)
    (stopped : ∀ stop s', next s.argCtxt s.src = .error stop → fail stop s') :
    wp (Parser.needToken next type) post fail s :=
  wp_bind.mpr (wp_checkToken (fun same => wp_eatToken (returned same) stopped) missing)

@[simp] theorem wp_peekToken {types : List TokenType} {post : Bool → ParserState σ → Prop} :
    wp (Parser.peekToken types) post fail s ↔ post (types.contains s.tok.type) s := Iff.rfl

@[simp] theorem wp_prevTok {post : Token → ParserState σ → Prop} :
    wp Parser.prevTok post fail s ↔ post s.prevTok s := Iff.rfl

@[simp] theorem wp_newNode {wrap : α → AstNode} {node : α} {post : α → ParserState σ → Prop} :
    wp (Parser.newNode wrap node) post fail s ↔ post node { s with pool := s.pool ++ [wrap node] } := Iff.rfl

@[simp] theorem wp_missedToken {func : String} {post : α → ParserState σ → Prop} :
    wp (Parser.missedToken func) post fail s ↔
      fail (.error ⟨s.tok.pos, .unexpectedToken s.tok.type (if func.toList.dropWhile (· != '_') = [] then func
        else String.ofList (func.toList.dropWhile (· != '_')).tail)⟩) s := Iff.rfl

end Calls

section Sound
variable {next : TokenSource σ} {size : σ → Nat}

/-- From `s` to `s'` the parser has eaten tokens that fit the leaves. -/
structure Eats (next : TokenSource σ) (size : σ → Nat) (leaves : List Leaf) (s s' : ParserState σ) : Prop where
  reads : Reads next s.view leaves s'.view
  used : remaining size s'.view + leaves.length ≤ remaining size s.view
  ctxt : s'.argCtxt = false

theorem Eats.trans {a b : List Leaf} {s s' s'' : ParserState σ} (left : Eats next size a s s')
    (right : Eats next size b s' s'') : Eats next size (a ++ b) s s'' where
  reads := left.reads.append right.reads
  used := by
    have first := left.used
    have second := right.used
    rw [List.length_append]
    omega
  ctxt := right.ctxt

/-- `x` stops for a reason of the source, or returns a value whose leaves it has eaten. -/
def Sound (next : TokenSource σ) (size : σ → Nat) (x : Parser σ α) (leaves : α → List Leaf)
    (s : ParserState σ) : Prop :=
  wp x (fun a s' => Eats next size (leaves a) s s') (fun stop _ => stop ≠ .outOfFuel) s

/-- A sound part of a program, before a rest that is followed from every state it may leave. -/
theorem Sound.bind {x : Parser σ α} {f : α → Parser σ β} {leaves : α → List Leaf} {s : ParserState σ}
    {post : β → ParserState σ → Prop} (run : Sound next size x leaves s)
    (rest : ∀ a s', Eats next size (leaves a) s s' → wp (f a) post (fun stop _ => stop ≠ .outOfFuel) s') :
    wp (x >>= f) post (fun stop _ => stop ≠ .outOfFuel) s :=
  wp_bind.mpr (run.mono rest fun _ _ stopped => stopped)

variable (shrinks : Shrinks next size)
include shrinks

/-- One token eaten under the right value of `arg_ctxt`, which is `false` afterwards. -/
private theorem eats_token {s s' : ParserState σ} {leaf : Leaf} (fits : leaf.Fits s.tok) (inner : s.tok.type ≠ .eos)
    (step : next (s.tok.type == .dot) s.src = .ok s'.view) (ctxt : s'.argCtxt = false) :
    Eats next size [leaf] s s' where
  reads := .cons fits step .nil
  used := by
    have less : size s'.src + (if s'.tok.type = .eos then 0 else 1) ≤ size s.src := shrinks.step step
    simp only [remaining, ParserState.view, inner, List.length_singleton, if_false]
    split at less <;> simp_all
  ctxt := ctxt

theorem eatToken_sound {leaf : Leaf} {s : ParserState σ} (fits : leaf.Fits s.tok) (inner : s.tok.type ≠ .eos)
    (other : s.tok.type ≠ .dot) (ctxt : s.argCtxt = false) :
    Sound next size (Parser.eatToken next) (fun _ => [leaf]) s := by
  have now : s.argCtxt = (s.tok.type == .dot) := by rw [ctxt]; simpa using other
  refine wp_eatToken ?_ ?_
  · intro view step
    exact eats_token shrinks fits inner (now ▸ step) ctxt
  · rintro stop _ step rfl
    exact shrinks.fueled step

theorem needToken_sound {type : TokenType} {s : ParserState σ} (inner : type ≠ .eos) (other : type ≠ .dot)
    (ctxt : s.argCtxt = false) : Sound next size (Parser.needToken next type) (fun _ => [.token type]) s := by
  refine wp_bind.mpr (wp_checkToken ?_ (by simp))
  rintro rfl
  exact eatToken_sound shrinks rfl inner other ctxt

/-- The methods of the rules that are a single word. -/
private theorem word_sound {type : TokenType} {wrap : α → AstNode} {make : CStr → α} {leaves : α → List Leaf}
    (shape : ∀ str, leaves (make str) = [.lexeme type str]) (inner : type ≠ .eos) (other : type ≠ .dot)
    {s : ParserState σ} (ctxt : s.argCtxt = false) :
    Sound next size (do Parser.needToken next type; Parser.newNode wrap (make (← Parser.prevTok).lex)) leaves s := by
  have now : s.argCtxt = (type == .dot) := by rw [ctxt]; simpa using other
  refine wp_bind.mpr (wp_needToken ?_ (by simp) ?_)
  · rintro rfl view step
    simp only [wp_bind, wp_prevTok, wp_newNode, shape]
    exact eats_token shrinks ⟨rfl, rfl⟩ inner (now ▸ step) ctxt
  · rintro stop _ step rfl
    exact shrinks.fueled step

variable {s : ParserState σ} (ctxt : s.argCtxt = false)
include ctxt

theorem parseNodeName_sound : Sound next size (Parser.parseNodeName next) NodeName.leaves s :=
  word_sound shrinks (fun _ => rfl) (by decide) (by decide) ctxt

theorem parseArgName_sound : Sound next size (Parser.parseArgName next) ArgName.leaves s :=
  word_sound shrinks (fun _ => rfl) (by decide) (by decide) ctxt

theorem parseLiteral_sound : Sound next size (Parser.parseLiteral next) Literal.leaves s :=
  word_sound shrinks (fun _ => rfl) (by decide) (by decide) ctxt

/-- The index of a list element: its token must be a number that fits. -/
private theorem index_sound {f : UInt8 → Parser σ β} {post : β → ParserState σ → Prop}
    (rest : ∀ idx s', Eats next size [.index idx] s s' →
      wp (f idx) post (fun stop _ => stop ≠ .outOfFuel) s') :
    wp (do
      Parser.needToken next .num
      let tok ← Parser.prevTok
      let idx ← Parser.listElemIdx tok.lex tok.pos
      f idx) post (fun stop _ => stop ≠ .outOfFuel) s := by
  refine wp_bind.mpr (wp_needToken ?_ (by simp) ?_)
  · intro isNum view step
    simp only [wp_bind, wp_prevTok, Parser.listElemIdx]
    split
    · next v accepted =>
      obtain ⟨numeral, small, rfl⟩ := parseNum_uchar_eq_some.mp accepted
      have value : decimal (cstr s.tok.lex) = (UInt8.ofNat (decimal (cstr s.tok.lex))).toNat := by
        rw [UInt8.toNat_ofNat']
        have bound : decimal (cstr s.tok.lex) ≤ 255 := small
        omega
      have now : s.argCtxt = (s.tok.type == .dot) := by rw [ctxt, isNum]; rfl
      exact rest _ _ (eats_token shrinks ⟨isNum, numeral, value⟩ (by rw [isNum]; decide) (now ▸ step) ctxt)
    · simp [Parser.error]
  · rintro stop _ step rfl
    exact shrinks.fueled step

omit ctxt

set_option linter.unusedSectionVars false

mutual

theorem parseTreeNode_sound : (fuel : Nat) → ∀ s : ParserState σ, s.argCtxt = false →
    2 * remaining size s.view + 1 ≤ fuel → Sound next size (Parser.parseTreeNode next fuel) TreeNode.leaves s
  | 0, _, _, enough => absurd enough (by omega)
  | fuel + 1, s, ctxt, enough => by
    rw [Parser.parseTreeNode]
    refine (parseNodeName_sound shrinks ctxt).bind fun name s₁ eats₁ => ?_
    refine (needToken_sound shrinks (by decide) (by decide) eats₁.ctxt).bind fun _ s₂ eats₂ => ?_
    have used₁ := eats₁.used
    have used₂ := eats₂.used
    simp only [NodeName.leaves, List.length_singleton] at used₁ used₂
    refine (parseNodeArgs_sound fuel s₂ eats₂.ctxt (by omega)).bind fun args s₃ eats₃ => ?_
    refine (needToken_sound shrinks (by decide) (by decide) eats₃.ctxt).bind fun _ s₄ eats₄ => ?_
    simp only [Parser.newTreenode, wp_newNode, TreeNode.leaves]
    have eats := eats₁.trans (eats₂.trans (eats₃.trans eats₄))
    exact ⟨eats.reads, eats.used, eats.ctxt⟩
  termination_by structural fuel => fuel

theorem parseNodeArgs_sound : (fuel : Nat) → ∀ s : ParserState σ, s.argCtxt = false →
    2 * remaining size s.view + 3 ≤ fuel → Sound next size (Parser.parseNodeArgs next fuel) NodeArgs.leaves s
  | 0, _, _, enough => absurd enough (by omega)
  | fuel + 1, s, ctxt, enough => by
    rw [Parser.parseNodeArgs, Sound, wp_bind, wp_peekToken]
    split
    · refine (parseNodeArgList_sound fuel s ctxt (by omega)).bind fun list s₁ eats => ?_
      exact ⟨eats.reads, eats.used, eats.ctxt⟩
    · rw [wp_bind, wp_peekToken]
      split
      · refine (parseLiteral_sound shrinks ctxt).bind fun literal s₁ eats => ?_
        exact ⟨eats.reads, eats.used, eats.ctxt⟩
      · simp
  termination_by structural fuel => fuel

theorem parseNodeArgList_sound : (fuel : Nat) → ∀ s : ParserState σ, s.argCtxt = false →
    2 * remaining size s.view + 2 ≤ fuel →
    Sound next size (Parser.parseNodeArgList next fuel) nodeArgListLeaves s
  | 0, _, _, enough => absurd enough (by omega)
  | fuel + 1, s, ctxt, enough => by
    rw [Parser.parseNodeArgList, Sound, wp_bind, wp_peekToken]
    split
    · refine (parseNodeArg_sound fuel s ctxt (by omega)).bind fun arg s₁ eats₁ => ?_
      have used := eats₁.used
      have some : 0 < arg.leaves.length := by cases arg; simp [NodeArg.leaves]
      refine (parseNodeArgList_sound fuel s₁ eats₁.ctxt (by omega)).bind fun list s₂ eats₂ => ?_
      exact eats₁.trans eats₂
    · exact ⟨.nil, by simp [nodeArgListLeaves], ctxt⟩
  termination_by structural fuel => fuel

theorem parseNodeArg_sound : (fuel : Nat) → ∀ s : ParserState σ, s.argCtxt = false →
    2 * remaining size s.view + 1 ≤ fuel → Sound next size (Parser.parseNodeArg next fuel) NodeArg.leaves s
  | 0, _, _, enough => absurd enough (by omega)
  | fuel + 1, s, ctxt, enough => by
    rw [Parser.parseNodeArg, Sound, Parser.argCtxtGuard, wp_guarded]
    refine wp_bind.mpr (wp_needToken ?_ (by simp) ?_)
    · intro isDot view step
      rw [wp_bind, wp_modify]
      have dot : (s.tok.type == .dot) = true := by simpa using isDot
      have eats₁ : Eats next size [.token .dot] s { s.eat view with argCtxt := false } :=
        eats_token shrinks isDot (by rw [isDot]; decide) (by rw [dot]; exact step) rfl
      refine (parseArgName_sound shrinks eats₁.ctxt).bind fun name s₂ eats₂ => ?_
      refine (needToken_sound shrinks (by decide) (by decide) eats₂.ctxt).bind fun _ s₃ eats₃ => ?_
      have used₁ := eats₁.used
      have used₂ := eats₂.used
      have used₃ := eats₃.used
      simp only [ArgName.leaves, List.length_singleton] at used₁ used₂ used₃
      refine (parseArgValue_sound fuel s₃ eats₃.ctxt (by omega)).bind fun value s₄ eats₄ => ?_
      have eats := eats₁.trans (eats₂.trans (eats₃.trans eats₄))
      simp only [Parser.newNodearg, wp_newNode, NodeArg.leaves]
      exact ⟨eats.reads, eats.used, rfl⟩
    · rintro stop _ step rfl
      exact shrinks.fueled step
  termination_by structural fuel => fuel

theorem parseArgValue_sound : (fuel : Nat) → ∀ s : ParserState σ, s.argCtxt = false →
    2 * remaining size s.view + 2 ≤ fuel → Sound next size (Parser.parseArgValue next fuel) ArgValue.leaves s
  | 0, _, _, enough => absurd enough (by omega)
  | fuel + 1, s, ctxt, enough => by
    rw [Parser.parseArgValue, Sound, wp_bind, wp_peekToken]
    split
    · refine (parseTreeNode_sound fuel s ctxt (by omega)).bind fun node s₁ eats => ?_
      exact ⟨eats.reads, eats.used, eats.ctxt⟩
    · rw [wp_bind, Parser.tryToken, wp_bind, wp_peekToken]
      split
      · next isWord =>
        have word : s.tok.type = .kwList := by simpa using isWord
        have fits : (Leaf.token .kwList).Fits s.tok := word
        refine (eatToken_sound shrinks fits (by rw [word]; decide) (by rw [word]; decide) ctxt).bind
          fun _ s₁ eats₁ => ?_
        simp only [wp_pure, if_true]
        refine (needToken_sound shrinks (by decide) (by decide) eats₁.ctxt).bind fun _ s₂ eats₂ => ?_
        refine (parseNodeName_sound shrinks eats₂.ctxt).bind fun base s₃ eats₃ => ?_
        refine (needToken_sound shrinks (by decide) (by decide) eats₃.ctxt).bind fun _ s₄ eats₄ => ?_
        refine (needToken_sound shrinks (by decide) (by decide) eats₄.ctxt).bind fun _ s₅ eats₅ => ?_
        have before := eats₁.trans (eats₂.trans (eats₃.trans (eats₄.trans eats₅)))
        have used := before.used
        simp only [List.length_append, List.length_singleton] at used
        refine (parseListElems_sound fuel s₅ eats₅.ctxt (by omega)).bind fun elems s₆ eats₆ => ?_
        refine (needToken_sound shrinks (by decide) (by decide) eats₆.ctxt).bind fun _ s₇ eats₇ => ?_
        have eats := eats₁.trans (eats₂.trans (eats₃.trans (eats₄.trans (eats₅.trans (eats₆.trans eats₇)))))
        simp only [Parser.newNodelist, Parser.newListvalue, wp_bind, wp_newNode, ArgValue.leaves, NodeList.leaves]
        exact ⟨eats.reads, eats.used, eats.ctxt⟩
      · simp only [wp_pure, Bool.false_eq_true, if_false]
        rw [wp_bind, wp_peekToken]
        split
        · refine (parseLiteral_sound shrinks ctxt).bind fun literal s₁ eats => ?_
          exact ⟨eats.reads, eats.used, eats.ctxt⟩
        · simp
  termination_by structural fuel => fuel

theorem parseListElems_sound : (fuel : Nat) → ∀ s : ParserState σ, s.argCtxt = false →
    2 * remaining size s.view + 2 ≤ fuel → Sound next size (Parser.parseListElems next fuel) listElemsLeaves s
  | 0, _, _, enough => absurd enough (by omega)
  | fuel + 1, s, ctxt, enough => by
    rw [Parser.parseListElems, Sound, wp_bind, wp_peekToken]
    split
    · refine (parseListElem_sound fuel s ctxt (by omega)).bind fun elem s₁ eats₁ => ?_
      have used := eats₁.used
      have some : 0 < elem.leaves.length := by cases elem; simp [ListElem.leaves]
      refine (parseListElems_sound fuel s₁ eats₁.ctxt (by omega)).bind fun elems s₂ eats₂ => ?_
      exact eats₁.trans eats₂
    · exact ⟨.nil, by simp [listElemsLeaves], ctxt⟩
  termination_by structural fuel => fuel

theorem parseListElem_sound : (fuel : Nat) → ∀ s : ParserState σ, s.argCtxt = false →
    2 * remaining size s.view + 1 ≤ fuel → Sound next size (Parser.parseListElem next fuel) ListElem.leaves s
  | 0, _, _, enough => absurd enough (by omega)
  | fuel + 1, s, ctxt, enough => by
    rw [Parser.parseListElem]
    refine (needToken_sound shrinks (by decide) (by decide) ctxt).bind fun _ s₁ eats₁ => ?_
    refine index_sound shrinks eats₁.ctxt fun idx s₂ eats₂ => ?_
    refine (needToken_sound shrinks (by decide) (by decide) eats₂.ctxt).bind fun _ s₃ eats₃ => ?_
    refine (needToken_sound shrinks (by decide) (by decide) eats₃.ctxt).bind fun _ s₄ eats₄ => ?_
    have before := eats₁.trans (eats₂.trans (eats₃.trans eats₄))
    have used := before.used
    simp only [List.length_append, List.length_singleton] at used
    refine (parseTreeNode_sound fuel s₄ eats₄.ctxt (by omega)).bind fun node s₅ eats₅ => ?_
    have eats := eats₁.trans (eats₂.trans (eats₃.trans (eats₄.trans eats₅)))
    simp only [Parser.newListelem, wp_newNode, ListElem.leaves]
    exact ⟨eats.reads, eats.used, eats.ctxt⟩
  termination_by structural fuel => fuel

end

end Sound

section Complete
variable {next : TokenSource σ}

/-- `x` returns `a`, standing at `view` with the nodes it has made added to the pool. -/
def Builds (x : Parser σ α) (a : α) (nodes : List AstNode) (s : ParserState σ) (view : Token × σ) : Prop :=
  wp x (fun b s' => b = a ∧ s'.view = view ∧ s'.argCtxt = false ∧ s'.pool = s.pool ++ nodes) (fun _ _ => False) s

theorem Builds.bind {x : Parser σ α} {f : α → Parser σ β} {a : α} {nodes : List AstNode} {s : ParserState σ}
    {view : Token × σ} {post : β → ParserState σ → Prop} (run : Builds x a nodes s view)
    (rest : ∀ s', s'.view = view → s'.argCtxt = false → s'.pool = s.pool ++ nodes →
      wp (f a) post (fun _ _ => False) s') : wp (x >>= f) post (fun _ _ => False) s := by
  refine wp_bind.mpr (run.mono ?_ fun _ _ stopped => stopped)
  rintro b s' ⟨rfl, same, ctxt, pool⟩
  exact rest s' same ctxt pool

private theorem Reads.step {s : ParserState σ} {leaf : Leaf} {view : Token × σ}
    (reads : Reads next s.view [leaf] view) : leaf.Fits s.tok ∧ next (s.tok.type == .dot) s.src = .ok view := by
  cases reads with
  | cons fits step rest =>
    cases rest
    exact ⟨fits, step⟩

/-- The token that the first of the leaves fits is of its type. -/
private theorem Reads.tok_type {s : ParserState σ} {leaf : Leaf} {leaves : List Leaf} {view : Token × σ}
    (reads : Reads next s.view (leaf :: leaves) view) : s.tok.type = leaf.type := reads.head.type_eq

variable {s : ParserState σ} {view : Token × σ} (ctxt : s.argCtxt = false)
include ctxt

theorem eatToken_builds {type : TokenType} (other : type ≠ .dot) (reads : Reads next s.view [.token type] view) :
    Builds (Parser.eatToken next) ⟨⟩ [] s view := by
  obtain ⟨same, step⟩ := reads.step
  have now : s.argCtxt = (s.tok.type == .dot) := by rw [ctxt, show s.tok.type = type from same]; simpa using other
  refine wp_eatToken ?_ ?_
  · intro view' step'
    rw [now, step] at step'
    cases step'
    exact ⟨rfl, rfl, ctxt, by simp [ParserState.eat]⟩
  · intro stop _ step'
    rw [now, step] at step'
    cases step'

theorem needToken_builds {type : TokenType} (other : type ≠ .dot) (reads : Reads next s.view [.token type] view) :
    Builds (Parser.needToken next type) ⟨⟩ [] s view := by
  refine wp_bind.mpr (wp_checkToken ?_ ?_)
  · intro _
    exact eatToken_builds ctxt other reads
  · intro different
    exact different reads.step.1

private theorem word_builds {type : TokenType} {wrap : α → AstNode} {make : CStr → α} {str : CStr}
    (other : type ≠ .dot) (reads : Reads next s.view [.lexeme type str] view) :
    Builds (do Parser.needToken next type; Parser.newNode wrap (make (← Parser.prevTok).lex)) (make str)
      [wrap (make str)] s view := by
  obtain ⟨⟨same, lex⟩, step⟩ := reads.step
  have now : s.argCtxt = (s.tok.type == .dot) := by rw [ctxt, same]; simpa using other
  refine wp_bind.mpr (wp_needToken ?_ ?_ ?_)
  · intro _ view' step'
    rw [now, step] at step'
    cases step'
    simp only [wp_bind, wp_prevTok, wp_newNode]
    exact ⟨congrArg make lex, rfl, ctxt, by simp [ParserState.eat, lex]⟩
  · exact fun different => different same
  · intro stop _ step'
    rw [now, step] at step'
    cases step'

theorem parseNodeName_builds {name : NodeName} (reads : Reads next s.view name.leaves view) :
    Builds (Parser.parseNodeName next) name name.nodes s view :=
  word_builds ctxt (by decide) reads

theorem parseArgName_builds {name : ArgName} (reads : Reads next s.view name.leaves view) :
    Builds (Parser.parseArgName next) name name.nodes s view :=
  word_builds ctxt (by decide) reads

theorem parseLiteral_builds {literal : Literal} (reads : Reads next s.view literal.leaves view) :
    Builds (Parser.parseLiteral next) literal literal.nodes s view :=
  word_builds ctxt (by decide) reads

private theorem index_builds {f : UInt8 → Parser σ β} {post : β → ParserState σ → Prop} {idx : UInt8}
    (reads : Reads next s.view [.index idx] view)
    (rest : ∀ s' : ParserState σ, s'.view = view → s'.argCtxt = false → s'.pool = s.pool →
      wp (f idx) post (fun _ _ => False) s') :
    wp (do
      Parser.needToken next .num
      let tok ← Parser.prevTok
      let idx ← Parser.listElemIdx tok.lex tok.pos
      f idx) post (fun _ _ => False) s := by
  obtain ⟨⟨isNum, numeral, value⟩, step⟩ := reads.step
  have now : s.argCtxt = (s.tok.type == .dot) := by rw [ctxt, isNum]; rfl
  refine wp_bind.mpr (wp_needToken ?_ ?_ ?_)
  · intro _ view' step'
    rw [now, step] at step'
    cases step'
    have accepted : parseNum IntType.uchar (cstr s.tok.lex) = some (idx.toNat : Int) :=
      parseNum_uchar_eq_some.mpr ⟨numeral, by have := idx.toNat_lt; omega, by rw [value]⟩
    have listElemIdx : Parser.listElemIdx (s.eat view).prevTok.lex (s.eat view).prevTok.pos
        = (pure idx : Parser σ UInt8) := by
      rw [Parser.listElemIdx, show (s.eat view).prevTok.lex = cstr s.tok.lex from rfl, accepted]
      simp
    simp only [wp_bind, wp_prevTok, listElemIdx, wp_pure]
    exact rest _ rfl ctxt rfl
  · exact fun different => different isNum
  · intro stop _ step'
    rw [now, step] at step'
    cases step'

omit ctxt

/-- The last step of a method: its node goes to the pool. -/
private theorem builds_newNode {wrap : α → AstNode} {a : α} {nodes : List AstNode} {s' : ParserState σ}
    (stands : s'.view = view) (ctxt : s'.argCtxt = false) (pool : s'.pool = s.pool ++ nodes) :
    wp (Parser.newNode wrap a) (fun b s'' => b = a ∧ s''.view = view ∧ s''.argCtxt = false ∧
      s''.pool = s.pool ++ (nodes ++ [wrap a])) (fun _ _ => False) s' :=
  ⟨rfl, stands, ctxt, by simp [pool]⟩

mutual

theorem parseTreeNode_builds : (node : TreeNode) → ∀ (fuel : Nat) (s : ParserState σ) (view : Token × σ),
    s.argCtxt = false → Reads next s.view node.leaves view → 2 * node.leaves.length + 1 ≤ fuel →
    Builds (Parser.parseTreeNode next fuel) node node.nodes s view
  | .mk _ _, 0, _, _, _, _, enough => absurd enough (by omega)
  | .mk name args, fuel + 1, s, view, ctxt, reads, enough => by
    simp only [TreeNode.leaves, NodeName.leaves, List.length_append, List.length_singleton] at reads enough
    obtain ⟨view₁, reads₁, reads⟩ := reads.split
    obtain ⟨view₂, reads₂, reads⟩ := reads.split
    obtain ⟨view₃, reads₃, reads₄⟩ := reads.split
    rw [Parser.parseTreeNode]
    refine (parseNodeName_builds ctxt reads₁).bind fun s₁ view₁ ctxt₁ pool₁ => ?_
    subst view₁
    refine (needToken_builds ctxt₁ (by decide) reads₂).bind fun s₂ view₂ ctxt₂ pool₂ => ?_
    subst view₂
    refine (parseNodeArgs_builds args fuel s₂ view₃ ctxt₂ reads₃ reads₄.head (by omega)).bind
      fun s₃ view₃ ctxt₃ pool₃ => ?_
    subst view₃
    refine (needToken_builds ctxt₃ (by decide) reads₄).bind fun s₄ view₄ ctxt₄ pool₄ => ?_
    exact builds_newNode view₄ ctxt₄ (by simp [pool₁, pool₂, pool₃, pool₄])
  termination_by structural node => node

theorem parseNodeArgs_builds : (args : NodeArgs) → ∀ (fuel : Nat) (s : ParserState σ) (view : Token × σ),
    s.argCtxt = false → Reads next s.view args.leaves view → view.1.type = .closeParen →
    2 * args.leaves.length + 3 ≤ fuel → Builds (Parser.parseNodeArgs next fuel) args args.nodes s view
  | _, 0, _, _, _, _, _, enough => absurd enough (by omega)
  | .listArgs list, fuel + 1, s, view, ctxt, reads, follow, enough => by
    have starts : [TokenType.closeParen, .dot].contains s.tok.type = true := by
      cases list with
      | nil =>
        cases reads
        rw [show s.tok.type = .closeParen from follow]
        rfl
      | cons arg list =>
        cases arg with
        | mk name value =>
          simp only [NodeArgs.leaves, nodeArgListLeaves, NodeArg.leaves, List.cons_append] at reads
          rw [reads.tok_type]
          rfl
    rw [Parser.parseNodeArgs, Builds, wp_bind, wp_peekToken, if_pos starts]
    refine (parseNodeArgList_builds list fuel s view ctxt reads (by rw [follow]; decide)
      (by simp only [NodeArgs.leaves] at enough; omega)).bind fun s₁ view₁ ctxt₁ pool₁ => ?_
    exact builds_newNode view₁ ctxt₁ pool₁
  | .literalArgs literal, fuel + 1, s, view, ctxt, reads, follow, enough => by
    have isStr : s.tok.type = .str := reads.tok_type
    rw [Parser.parseNodeArgs, Builds, wp_bind, wp_peekToken, isStr, if_neg (by decide), wp_bind, wp_peekToken, isStr,
      if_pos (by decide)]
    refine (parseLiteral_builds ctxt reads).bind fun s₁ view₁ ctxt₁ pool₁ => ?_
    exact builds_newNode view₁ ctxt₁ pool₁
  termination_by structural args => args

theorem parseNodeArgList_builds : (list : List NodeArg) → ∀ (fuel : Nat) (s : ParserState σ) (view : Token × σ),
    s.argCtxt = false → Reads next s.view (nodeArgListLeaves list) view → view.1.type ≠ .dot →
    2 * (nodeArgListLeaves list).length + 2 ≤ fuel →
    Builds (Parser.parseNodeArgList next fuel) list (nodeArgListNodes list) s view
  | _, 0, _, _, _, _, _, enough => absurd enough (by omega)
  | [], fuel + 1, s, view, ctxt, reads, follow, _ => by
    cases reads
    have stops : ¬ [TokenType.dot].contains s.tok.type = true := by simpa using follow
    rw [Parser.parseNodeArgList, Builds, wp_bind, wp_peekToken, if_neg stops]
    exact ⟨rfl, rfl, ctxt, by simp [nodeArgListNodes]⟩
  | arg :: list, fuel + 1, s, view, ctxt, reads, follow, enough => by
    obtain ⟨view₁, reads₁, reads₂⟩ := reads.split
    have starts : [TokenType.dot].contains s.tok.type = true := by
      cases arg with
      | mk name value =>
        simp only [NodeArg.leaves, List.singleton_append] at reads₁
        rw [reads₁.tok_type]
        rfl
    have some : 0 < arg.leaves.length := by cases arg; simp [NodeArg.leaves]
    simp only [nodeArgListLeaves, List.length_append] at enough
    rw [Parser.parseNodeArgList, Builds, wp_bind, wp_peekToken, if_pos starts]
    refine (parseNodeArg_builds arg fuel s view₁ ctxt reads₁ (by omega)).bind fun s₁ view₁ ctxt₁ pool₁ => ?_
    subst view₁
    refine (parseNodeArgList_builds list fuel s₁ view ctxt₁ reads₂ follow (by omega)).bind
      fun s₂ view₂ ctxt₂ pool₂ => ?_
    exact ⟨rfl, view₂, ctxt₂, by simp [pool₁, pool₂, nodeArgListNodes]⟩
  termination_by structural list => list

theorem parseNodeArg_builds : (arg : NodeArg) → ∀ (fuel : Nat) (s : ParserState σ) (view : Token × σ),
    s.argCtxt = false → Reads next s.view arg.leaves view → 2 * arg.leaves.length + 1 ≤ fuel →
    Builds (Parser.parseNodeArg next fuel) arg arg.nodes s view
  | .mk _ _, 0, _, _, _, _, enough => absurd enough (by omega)
  | .mk name value, fuel + 1, s, view, ctxt, reads, enough => by
    simp only [NodeArg.leaves, ArgName.leaves, List.length_append, List.length_singleton] at reads enough
    obtain ⟨view₁, reads₁, reads⟩ := reads.split
    obtain ⟨view₂, reads₂, reads⟩ := reads.split
    obtain ⟨view₃, reads₃, reads₄⟩ := reads.split
    obtain ⟨isDot, step⟩ := reads₁.step
    rw [Leaf.Fits] at isDot
    have dot : (s.tok.type == .dot) = true := by simpa using isDot
    rw [dot] at step
    rw [Parser.parseNodeArg, Builds, Parser.argCtxtGuard, wp_guarded]
    refine wp_bind.mpr (wp_needToken ?_ (fun other => other isDot) ?_)
    · intro _ view' step'
      rw [show next _ _ = .ok view₁ from step] at step'
      cases step'
      rw [wp_bind, wp_modify]
      refine (parseArgName_builds rfl reads₂).bind fun s₁ view₂ ctxt₁ pool₁ => ?_
      subst view₂
      refine (needToken_builds ctxt₁ (by decide) reads₃).bind fun s₂ view₃ ctxt₂ pool₂ => ?_
      subst view₃
      refine (parseArgValue_builds value fuel s₂ view ctxt₂ reads₄ (by omega)).bind fun s₃ view₄ ctxt₃ pool₃ => ?_
      refine ⟨rfl, view₄, rfl, ?_⟩
      simp [pool₁, pool₂, pool₃, NodeArg.nodes, ParserState.eat]
    · intro stop _ step'
      rw [show next _ _ = .ok view₁ from step] at step'
      cases step'
  termination_by structural arg => arg

theorem parseArgValue_builds : (value : ArgValue) → ∀ (fuel : Nat) (s : ParserState σ) (view : Token × σ),
    s.argCtxt = false → Reads next s.view value.leaves view → 2 * value.leaves.length + 2 ≤ fuel →
    Builds (Parser.parseArgValue next fuel) value value.nodes s view
  | _, 0, _, _, _, _, enough => absurd enough (by omega)
  | .nodeValue node, fuel + 1, s, view, ctxt, reads, enough => by
    have isIdent : s.tok.type = .ident := by
      cases node with
      | mk name args =>
        simp only [ArgValue.leaves, TreeNode.leaves, NodeName.leaves, List.cons_append] at reads
        exact reads.tok_type
    rw [Parser.parseArgValue, Builds, wp_bind, wp_peekToken, isIdent, if_pos (by decide)]
    refine (parseTreeNode_builds node fuel s view ctxt reads (by simp only [ArgValue.leaves] at enough; omega)).bind
      fun s₁ view₁ ctxt₁ pool₁ => ?_
    exact builds_newNode view₁ ctxt₁ pool₁
  | .listValue (.mk base elems), fuel + 1, s, view, ctxt, reads, enough => by
    simp only [ArgValue.leaves, NodeList.leaves, NodeName.leaves, List.length_append, List.length_singleton]
      at reads enough
    obtain ⟨view₁, reads₁, reads⟩ := reads.split
    obtain ⟨view₂, reads₂, reads⟩ := reads.split
    obtain ⟨view₃, reads₃, reads⟩ := reads.split
    obtain ⟨view₄, reads₄, reads⟩ := reads.split
    obtain ⟨view₅, reads₅, reads⟩ := reads.split
    obtain ⟨view₆, reads₆, reads₇⟩ := reads.split
    have isWord : s.tok.type = .kwList := reads₁.tok_type
    rw [Parser.parseArgValue, Builds, wp_bind, wp_peekToken, isWord, if_neg (by decide), wp_bind, Parser.tryToken,
      wp_bind, wp_peekToken, isWord, if_pos (by decide)]
    refine (eatToken_builds ctxt (by decide) reads₁).bind fun s₁ view₁ ctxt₁ pool₁ => ?_
    subst view₁
    rw [wp_pure, if_pos rfl]
    refine (needToken_builds ctxt₁ (by decide) reads₂).bind fun s₂ view₂ ctxt₂ pool₂ => ?_
    subst view₂
    refine (parseNodeName_builds ctxt₂ reads₃).bind fun s₃ view₃ ctxt₃ pool₃ => ?_
    subst view₃
    refine (needToken_builds ctxt₃ (by decide) reads₄).bind fun s₄ view₄ ctxt₄ pool₄ => ?_
    subst view₄
    refine (needToken_builds ctxt₄ (by decide) reads₅).bind fun s₅ view₅ ctxt₅ pool₅ => ?_
    subst view₅
    have follow : view₆.1.type ≠ .openSqbrk := by
      rw [show view₆.1.type = .closeSqbrk from reads₇.head]
      decide
    refine (parseListElems_builds elems fuel s₅ view₆ ctxt₅ reads₆ follow (by omega)).bind
      fun s₆ view₆ ctxt₆ pool₆ => ?_
    subst view₆
    refine (needToken_builds ctxt₆ (by decide) reads₇).bind fun s₇ view₇ ctxt₇ pool₇ => ?_
    rw [Parser.newNodelist, wp_bind, wp_newNode]
    refine ⟨rfl, view₇, ctxt₇, ?_⟩
    simp [pool₁, pool₂, pool₃, pool₄, pool₅, pool₆, pool₇, ArgValue.nodes, NodeList.nodes]
  | .literalValue literal, fuel + 1, s, view, ctxt, reads, enough => by
    have isStr : s.tok.type = .str := reads.tok_type
    rw [Parser.parseArgValue, Builds, wp_bind, wp_peekToken, isStr, if_neg (by decide), wp_bind, Parser.tryToken,
      wp_bind, wp_peekToken, isStr, if_neg (by decide), wp_pure, if_neg (by decide), wp_bind, wp_peekToken, isStr,
      if_pos (by decide)]
    refine (parseLiteral_builds ctxt reads).bind fun s₁ view₁ ctxt₁ pool₁ => ?_
    exact builds_newNode view₁ ctxt₁ pool₁
  termination_by structural value => value

theorem parseListElems_builds : (elems : List ListElem) → ∀ (fuel : Nat) (s : ParserState σ) (view : Token × σ),
    s.argCtxt = false → Reads next s.view (listElemsLeaves elems) view → view.1.type ≠ .openSqbrk →
    2 * (listElemsLeaves elems).length + 2 ≤ fuel →
    Builds (Parser.parseListElems next fuel) elems (listElemsNodes elems) s view
  | _, 0, _, _, _, _, _, enough => absurd enough (by omega)
  | [], fuel + 1, s, view, ctxt, reads, follow, _ => by
    cases reads
    have stops : ¬ [TokenType.openSqbrk].contains s.tok.type = true := by simpa using follow
    rw [Parser.parseListElems, Builds, wp_bind, wp_peekToken, if_neg stops]
    exact ⟨rfl, rfl, ctxt, by simp [listElemsNodes]⟩
  | elem :: elems, fuel + 1, s, view, ctxt, reads, follow, enough => by
    obtain ⟨view₁, reads₁, reads₂⟩ := reads.split
    have starts : [TokenType.openSqbrk].contains s.tok.type = true := by
      cases elem with
      | mk index node =>
        simp only [ListElem.leaves, List.singleton_append] at reads₁
        rw [reads₁.tok_type]
        rfl
    have some : 0 < elem.leaves.length := by cases elem; simp [ListElem.leaves]
    simp only [listElemsLeaves, List.length_append] at enough
    rw [Parser.parseListElems, Builds, wp_bind, wp_peekToken, if_pos starts]
    refine (parseListElem_builds elem fuel s view₁ ctxt reads₁ (by omega)).bind fun s₁ view₁ ctxt₁ pool₁ => ?_
    subst view₁
    refine (parseListElems_builds elems fuel s₁ view ctxt₁ reads₂ follow (by omega)).bind
      fun s₂ view₂ ctxt₂ pool₂ => ?_
    exact ⟨rfl, view₂, ctxt₂, by simp [pool₁, pool₂, listElemsNodes]⟩
  termination_by structural elems => elems

theorem parseListElem_builds : (elem : ListElem) → ∀ (fuel : Nat) (s : ParserState σ) (view : Token × σ),
    s.argCtxt = false → Reads next s.view elem.leaves view → 2 * elem.leaves.length + 1 ≤ fuel →
    Builds (Parser.parseListElem next fuel) elem elem.nodes s view
  | .mk _ _, 0, _, _, _, _, enough => absurd enough (by omega)
  | .mk index node, fuel + 1, s, view, ctxt, reads, enough => by
    simp only [ListElem.leaves, List.length_append, List.length_singleton] at reads enough
    obtain ⟨view₁, reads₁, reads⟩ := reads.split
    obtain ⟨view₂, reads₂, reads⟩ := reads.split
    obtain ⟨view₃, reads₃, reads⟩ := reads.split
    obtain ⟨view₄, reads₄, reads₅⟩ := reads.split
    rw [Parser.parseListElem]
    refine (needToken_builds ctxt (by decide) reads₁).bind fun s₁ view₁ ctxt₁ pool₁ => ?_
    subst view₁
    refine index_builds ctxt₁ reads₂ fun s₂ view₂ ctxt₂ pool₂ => ?_
    subst view₂
    refine (needToken_builds ctxt₂ (by decide) reads₃).bind fun s₃ view₃ ctxt₃ pool₃ => ?_
    subst view₃
    refine (needToken_builds ctxt₃ (by decide) reads₄).bind fun s₄ view₄ ctxt₄ pool₄ => ?_
    subst view₄
    refine (parseTreeNode_builds node fuel s₄ view ctxt₄ reads₅ (by omega)).bind fun s₅ view₅ ctxt₅ pool₅ => ?_
    exact builds_newNode view₅ ctxt₅ (by simp [pool₁, pool₂, pool₃, pool₄, pool₅])
  termination_by structural elem => elem

end

end Complete

end CxxpyTree
