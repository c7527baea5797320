import CxxpyTree.StoreRefinement
import CxxpyTree.Tracing

/-! A parse into the pools of an `AST` against the parse that returns the tree. -/

namespace CxxpyTree
open Machine Store

variable {σ α β : Type}

/-- The same result with other nodes in the pool. -/
def withPool (pool : List AstNode) : EStateM.Result Stop (ParserState σ) α → EStateM.Result Stop (ParserState σ) α
  | .ok a s => .ok a { s with pool }
  | .error stop s => .error stop { s with pool }

/-- A method that neither makes nodes nor looks at those that there are. -/
class OnTokens (x : Parser σ α) : Prop where
  blind : ∀ s pool, x { s with pool } = withPool pool (x s)

section Tokens
variable {x y : Parser σ α} {f : α → Parser σ β} {next : TokenSource σ}

instance {a : α} : OnTokens (pure a : Parser σ α) := ⟨fun _ _ => rfl⟩

instance {stop : Stop} : OnTokens (throw stop : Parser σ α) := ⟨fun _ _ => rfl⟩

instance [first : OnTokens x] [rest : ∀ a, OnTokens (f a)] : OnTokens (x >>= f) := by
  refine ⟨fun s pool => ?_⟩
  have blind := first.blind s pool
  cases ran : x s with
  | error stop s' =>
    rw [ran] at blind
    rw [bind_of_error ran, bind_of_error blind]
    rfl
  | ok a s' =>
    rw [ran] at blind
    rw [bind_of_ok ran, bind_of_ok blind]
    exact (rest a).blind s' pool

instance {c : Prop} [Decidable c] [first : OnTokens x] [second : OnTokens y] : OnTokens (if c then x else y) := by
  split
  · exact first
  · exact second

instance : OnTokens (Parser.nextToken next) := by
  refine ⟨fun s pool => ?_⟩
  unfold Parser.nextToken
  rw [get_bind, get_bind]
  cases next s.argCtxt s.src <;> rfl

instance : OnTokens (Parser.eatToken next) := by
  refine ⟨fun s pool => ?_⟩
  have called : OnTokens (Parser.nextToken next) := inferInstance
  exact called.blind { s with prevTok := { s.tok with lex := cstr s.tok.lex } } pool

instance {types : List TokenType} : OnTokens (Parser.peekToken types : Parser σ Bool) := ⟨fun _ _ => rfl⟩

instance : OnTokens (Parser.prevTok : Parser σ Token) := ⟨fun _ _ => rfl⟩

instance {type : TokenType} : OnTokens (Parser.checkToken type : Parser σ Unit) := by
  refine ⟨fun s pool => ?_⟩
  unfold Parser.checkToken Parser.error
  rw [get_bind, get_bind]
  split <;> rfl

instance {type : TokenType} : OnTokens (Parser.needToken next type) :=
  inferInstanceAs (OnTokens (Parser.checkToken type >>= fun _ => Parser.eatToken next))

instance {type : TokenType} : OnTokens (Parser.tryToken next type) := by
  unfold Parser.tryToken
  infer_instance

instance {func : String} : OnTokens (Parser.missedToken func : Parser σ α) := ⟨fun _ _ => rfl⟩

instance {str : CStr} {pos : Pos} : OnTokens (Parser.listElemIdx str pos : Parser σ UInt8) := by
  unfold Parser.listElemIdx Parser.error
  cases parseNum IntType.uchar str with
  | none => exact inferInstanceAs (OnTokens (throw _))
  | some idx => exact inferInstanceAs (OnTokens (pure _))

instance : OnTokens (modify fun s => { s with argCtxt := false } : Parser σ PUnit) := ⟨fun _ _ => rfl⟩

theorem OnTokens.pool [blind : OnTokens x] (s : ParserState σ) : (finalState (x s)).pool = s.pool := by
  have same := blind.blind s s.pool
  cases ran : x s with
  | ok a s' =>
    rw [show ({ s with pool := s.pool } : ParserState σ) = s from rfl, ran] at same
    injection same with _ same
    change s'.pool = s.pool
    rw [same]
  | error stop s' =>
    rw [show ({ s with pool := s.pool } : ParserState σ) = s from rfl, ran] at same
    injection same with _ same
    change s'.pool = s.pool
    rw [same]

instance (priority := low) [OnTokens x] : Grows ParserState.pool x := by
  refine ⟨fun front s held => ?_⟩
  have same := @OnTokens.pool _ _ x _ s
  unfold finalState at same
  unfold wp
  cases ran : x s with
  | ok a s' =>
    rw [ran] at same
    change s'.pool = s.pool at same
    change front <+: s'.pool
    rwa [same]
  | error stop s' =>
    rw [ran] at same
    change s'.pool = s.pool at same
    change front <+: s'.pool
    rwa [same]

end Tokens

instance grows_newNode {wrap : α → AstNode} {node : α} :
    Grows ParserState.pool (Parser.newNode wrap node : Parser σ α) := by
  refine ⟨fun front s held => ?_⟩
  exact held.trans (List.prefix_append s.pool [wrap node])

instance {root : TreeNode} : Grows ParserState.pool (Parser.newTree root : Parser σ Tree) := grows_newNode
instance {name : NodeName} {args : NodeArgs} : Grows ParserState.pool (Parser.newTreenode name args : Parser σ TreeNode) := grows_newNode
instance {ident : CStr} : Grows ParserState.pool (Parser.newNodename ident : Parser σ NodeName) := grows_newNode
instance {list : List NodeArg} : Grows ParserState.pool (Parser.newListargs list : Parser σ NodeArgs) := grows_newNode
instance {literal : Literal} : Grows ParserState.pool (Parser.newLiteralargs literal : Parser σ NodeArgs) := grows_newNode
instance {name : ArgName} {value : ArgValue} : Grows ParserState.pool (Parser.newNodearg name value : Parser σ NodeArg) := grows_newNode
instance {str : CStr} : Grows ParserState.pool (Parser.newArgname str : Parser σ ArgName) := grows_newNode
instance {node : TreeNode} : Grows ParserState.pool (Parser.newNodevalue node : Parser σ ArgValue) := grows_newNode
instance {list : NodeList} : Grows ParserState.pool (Parser.newListvalue list : Parser σ ArgValue) := grows_newNode
instance {literal : Literal} : Grows ParserState.pool (Parser.newLiteralvalue literal : Parser σ ArgValue) := grows_newNode
instance {base : NodeName} {elems : List ListElem} : Grows ParserState.pool (Parser.newNodelist base elems : Parser σ NodeList) :=
  grows_newNode
instance {index : UInt8} {node : TreeNode} : Grows ParserState.pool (Parser.newListelem index node : Parser σ ListElem) :=
  grows_newNode
instance {str : CStr} : Grows ParserState.pool (Parser.newLiteral str : Parser σ Literal) := grows_newNode

instance [Grows ParserState.pool x] : Grows ParserState.pool (Parser.argCtxtGuard x) :=
  Grows.guarded (fun _ => rfl) fun _ => rfl

section Growth
variable (next : TokenSource σ) (dump : Parser σ Unit) [OnTokens dump]

instance : Grows ParserState.pool (Traced.parseNodeName next dump) := by
  unfold Traced.parseNodeName
  infer_instance

instance : Grows ParserState.pool (Traced.parseArgName next dump) := by
  unfold Traced.parseArgName
  infer_instance

instance : Grows ParserState.pool (Traced.parseLiteral next dump) := by
  unfold Traced.parseLiteral
  infer_instance

/-- The methods that call each other only add nodes to the pool. -/
structure ParserGrows (fuel : Nat) : Prop where
  treeNode : Grows ParserState.pool (Traced.parseTreeNode next dump fuel)
  nodeArgs : Grows ParserState.pool (Traced.parseNodeArgs next dump fuel)
  nodeArgList : Grows ParserState.pool (Traced.parseNodeArgList next dump fuel)
  nodeArg : Grows ParserState.pool (Traced.parseNodeArg next dump fuel)
  argValue : Grows ParserState.pool (Traced.parseArgValue next dump fuel)
  listElems : Grows ParserState.pool (Traced.parseListElems next dump fuel)
  listElem : Grows ParserState.pool (Traced.parseListElem next dump fuel)

set_option synthInstance.maxSize 4096 in
theorem parser_grows (fuel : Nat) : ParserGrows next dump fuel := by
  induction fuel with
  | zero =>
    constructor
    all_goals
      first
      | rw [Traced.parseTreeNode]
      | rw [Traced.parseNodeArgs]
      | rw [Traced.parseNodeArgList]
      | rw [Traced.parseNodeArg]
      | rw [Traced.parseArgValue]
      | rw [Traced.parseListElems]
      | rw [Traced.parseListElem]
      infer_instance
  | succ fuel ih =>
    obtain ⟨_, _, _, _, _, _, _⟩ := ih
    constructor
    · rw [Traced.parseTreeNode]
      infer_instance
    · rw [Traced.parseNodeArgs]
      infer_instance
    · rw [Traced.parseNodeArgList]
      infer_instance
    · rw [Traced.parseNodeArg]
      infer_instance
    · rw [Traced.parseArgValue]
      infer_instance
    · rw [Traced.parseListElems]
      infer_instance
    · rw [Traced.parseListElem]
      infer_instance

end Growth

section Account
variable (σ) (layout : Layout) (fresh : PoolAllocator)

/-- The tree that the parser returns against the nodes in the pools: they are made alike as long as there is room. -/
abbrev storeAccount : Account World (ParserState σ) (ParserState σ × Store.AST) Pools AstNode Stop StoredStop where
  rel w s t := t.1 = { s with pool := [] } ∧ s.pool = w.nodes ∧ w.Holds t.2 ∧ t.2.Valid fresh
  kept := ParserState.pool
  funds t := t.2.pools
  pay := Pools.add layout
  broke stop := ∃ what, stop = .store (.alloc (.badAlloc what))
  embed := .parser

end Account

section Steps
variable {next : TokenSource σ} {dump : Parser σ Unit} {layout : Layout} {fresh : PoolAllocator} {w : World}

/-- The parser that returns nodes and the one that stores them go together, and their results are related by `R`. -/
abbrev Stores (layout : Layout) (fresh : PoolAllocator) (w : World) (x : Parser σ α) (y : StoredParser σ β)
    (R : World → α → β → Prop) : Prop := Affords (storeAccount σ layout fresh) w x y R

theorem onParser_stores (x : Parser σ α) [tokens : OnTokens x] :
    Stores layout fresh w x (Stored.onParser x) fun _ a b => a = b := by
  refine Affords.quiet (fun s => tokens.pool s) fun s t start => ?_
  obtain ⟨parser, ast⟩ := t
  obtain ⟨rfl, nodes, held⟩ := start
  have same := tokens.blind s []
  have pool := tokens.pool s
  unfold Stored.onParser wp
  cases ran : x s with
  | ok a s' =>
    rw [ran] at same pool
    exact ⟨a, ({ s' with pool := [] }, ast), by rw [same]; rfl, ⟨rfl, Eq.trans pool nodes, held⟩, rfl, rfl⟩
  | error stop s' =>
    rw [ran] at same
    exact ⟨({ s' with pool := [] }, ast), by rw [same]; rfl⟩

theorem onTokens_stores (x : Parser σ Unit) [OnTokens x] : Stores layout fresh w x (Stored.onParser x) fun _ _ _ => True :=
  (onParser_stores x).imp fun _ _ _ _ _ => trivial

/-- A node is made. -/
theorem newNode_stores (wrap : α → AstNode) (node : α) (args : List Arg)
    (given : List.Forall₂ w.Given (wrap node).parts args) :
    Stores layout fresh w (Parser.newNode wrap node : Parser σ α) (Stored.onAst (newNodeOf layout (wrap node).type args))
      fun w' a p => w'.At (wrap a) p where
  short {s t new} start keeps unpaid := by
    obtain ⟨-, nodes, holds, valid⟩ := start
    have one : new = [wrap node] := (List.append_cancel_left keeps).symm
    subst one
    have full : t.2.pools.add layout (wrap node) = none := by
      cases added : t.2.pools.add layout (wrap node) with
      | none => rfl
      | some pools =>
        change ((t.2.pools.add layout (wrap node)).bind fun pools => some pools) = none at unpaid
        rw [added] at unpaid
        cases unpaid
    obtain ⟨what, ast, failed⟩ := newNodeOf_none valid holds given full
    exact ⟨_, (t.1, ast), by rw [Stored.onAst, failed], what, rfl⟩
  paid {s t new rest} start keeps paid := by
    obtain ⟨same, nodes, holds, valid⟩ := start
    have one : new = [wrap node] := (List.append_cancel_left keeps).symm
    subst one
    obtain ⟨pools, added, last⟩ := Option.bind_eq_some_iff.mp paid
    cases last
    obtain ⟨p, ast, made, valid', holds', funds⟩ := newNodeOf_some valid holds given added
    refine ⟨w.push (wrap node) p, p, (t.1, ast), w.le_push _ _, by rw [Stored.onAst, made], ?_, funds,
      World.at_push holds.length⟩
    exact ⟨same, congrArg (· ++ [wrap node]) nodes, holds', valid'⟩

variable [OnTokens dump]

theorem parseNodeName_stores : Stores layout fresh w (Traced.parseNodeName next dump) (Stored.parseNodeName next dump layout)
    fun w' a p => w'.At (.nodeName a) p := by
  unfold Traced.parseNodeName Stored.parseNodeName
  refine (onTokens_stores dump).bind fun _ _ _ _ _ => (onTokens_stores _).bind fun _ _ _ _ _ => ?_
  refine (onParser_stores _).bind fun _ tok _ _ same => ?_
  subst same
  exact newNode_stores .nodeName ⟨tok.lex⟩ [.string (some tok.lex)] (.cons rfl .nil)

theorem parseArgName_stores : Stores layout fresh w (Traced.parseArgName next dump) (Stored.parseArgName next dump layout)
    fun w' a p => w'.At (.argName a) p := by
  unfold Traced.parseArgName Stored.parseArgName
  refine (onTokens_stores dump).bind fun _ _ _ _ _ => (onTokens_stores _).bind fun _ _ _ _ _ => ?_
  refine (onParser_stores _).bind fun _ tok _ _ same => ?_
  subst same
  exact newNode_stores .argName ⟨tok.lex⟩ [.string (some tok.lex)] (.cons rfl .nil)

theorem parseLiteral_stores : Stores layout fresh w (Traced.parseLiteral next dump) (Stored.parseLiteral next dump layout)
    fun w' a p => w'.At (.literal a) p := by
  unfold Traced.parseLiteral Stored.parseLiteral
  refine (onTokens_stores dump).bind fun _ _ _ _ _ => (onTokens_stores _).bind fun _ _ _ _ _ => ?_
  refine (onParser_stores _).bind fun _ tok _ _ same => ?_
  subst same
  exact newNode_stores .literal ⟨tok.lex⟩ [.string (some tok.lex)] (.cons rfl .nil)

/-- What the methods that call each other do at one depth of fuel. -/
structure ParserStores (next : TokenSource σ) (dump : Parser σ Unit) (layout : Layout) (fresh : PoolAllocator) (fuel : Nat) : Prop where
  treeNode : ∀ w, Stores layout fresh w (Traced.parseTreeNode next dump fuel) (Stored.parseTreeNode next dump layout fuel)
    fun w' a p => w'.At (.treeNode a) p
  nodeArgs : ∀ w, Stores layout fresh w (Traced.parseNodeArgs next dump fuel) (Stored.parseNodeArgs next dump layout fuel)
    fun w' a p => w'.At (.nodeArgs a) p
  nodeArgList : ∀ w, Stores layout fresh w (Traced.parseNodeArgList next dump fuel) (Stored.parseNodeArgList next dump layout fuel)
    fun w' list ptrs => List.Forall₂ w'.At (list.map AstNode.nodeArg) ptrs
  nodeArg : ∀ w, Stores layout fresh w (Traced.parseNodeArg next dump fuel) (Stored.parseNodeArg next dump layout fuel)
    fun w' a p => w'.At (.nodeArg a) p
  argValue : ∀ w, Stores layout fresh w (Traced.parseArgValue next dump fuel) (Stored.parseArgValue next dump layout fuel)
    fun w' a p => w'.At (.argValue a) p
  listElems : ∀ w, Stores layout fresh w (Traced.parseListElems next dump fuel) (Stored.parseListElems next dump layout fuel)
    fun w' elems ptrs => List.Forall₂ w'.At (elems.map AstNode.listElem) ptrs
  listElem : ∀ w, Stores layout fresh w (Traced.parseListElem next dump fuel) (Stored.parseListElem next dump layout fuel)
    fun w' a p => w'.At (.listElem a) p

/-- A test of the parser decides for both. -/
theorem Stores.cond {test : Parser σ Bool} [OnTokens test] {x y : Parser σ α} {x' y' : StoredParser σ β}
    {R : World → α → β → Prop} [Grows ParserState.pool x] [Grows ParserState.pool y]
    (first : ∀ w', w ≤ w' → Stores layout fresh w' x x' R) (second : ∀ w', w ≤ w' → Stores layout fresh w' y y' R) :
    Stores layout fresh w (do if ← test then x else y) (do if ← Stored.onParser test then x' else y') R := by
  refine (onParser_stores test).bind fun w' a _ le same => ?_
  subst same
  exact Affords.ite (fun _ => first w' le) fun _ => second w' le

/-- A method that only throws throws the same for both. -/
theorem throws_stores {x : Parser σ α} {y : Parser σ β} {R : World → α → β → Prop} (stop : ParserState σ → Stop)
    (blind : ∀ s pool, stop { s with pool } = stop s) (first : ∀ s, x s = .error (stop s) s)
    (second : ∀ s, y s = .error (stop s) s) : Stores layout fresh w x (Stored.onParser y) R := by
  refine Affords.quiet (fun s => by rw [first]; rfl) fun s t start => ?_
  obtain ⟨parser, ast⟩ := t
  obtain ⟨rfl, -⟩ := start
  refine (wp_of_error (first s)).mpr ⟨({ s with pool := [] }, ast), ?_⟩
  rw [Stored.onParser, second, blind]

theorem outOfFuel_stores {R : World → α → β → Prop} :
    Stores layout fresh w (throw .outOfFuel : Parser σ α) (Stored.onParser (throw .outOfFuel)) R :=
  throws_stores (fun _ => .outOfFuel) (fun _ _ => rfl) (fun _ => rfl) fun _ => rfl

theorem missedToken_stores {func : String} {R : World → α → β → Prop} :
    Stores layout fresh w (Parser.missedToken func : Parser σ α) (Stored.onParser (Parser.missedToken func)) R := by
  let stop (s : ParserState σ) : Stop := .error ⟨s.tok.pos, .unexpectedToken s.tok.type
    (if func.toList.dropWhile (· != '_') = [] then func else String.ofList (func.toList.dropWhile (· != '_')).tail)⟩
  exact throws_stores stop (fun _ _ => rfl) (fun _ => rfl) fun _ => rfl

theorem argCtxtGuard_stores {x : Parser σ α} {y : StoredParser σ β} {R : World → α → β → Prop}
    (body : Stores layout fresh w x y R) : Stores layout fresh w (Parser.argCtxtGuard x) (Stored.argCtxtGuard y) R := by
  refine Affords.guarded ?_ ?_ (fun _ => rfl) (fun _ => rfl) (fun _ => rfl) (fun _ => rfl) body
  · rintro w s t ⟨same, nodes, held⟩
    exact ⟨by rw [same], nodes, held⟩
  · rintro w s t ⟨same, nodes, held⟩
    exact ⟨by rw [same], nodes, held⟩

set_option synthInstance.maxSize 4096 in
theorem parser_stores (fuel : Nat) : ParserStores next dump layout fresh fuel := by
  induction fuel with
  | zero =>
    constructor
    · intro w; rw [Traced.parseTreeNode, Stored.parseTreeNode]; exact outOfFuel_stores
    · intro w; rw [Traced.parseNodeArgs, Stored.parseNodeArgs]; exact outOfFuel_stores
    · intro w; rw [Traced.parseNodeArgList, Stored.parseNodeArgList]; exact outOfFuel_stores
    · intro w; rw [Traced.parseNodeArg, Stored.parseNodeArg]; exact outOfFuel_stores
    · intro w; rw [Traced.parseArgValue, Stored.parseArgValue]; exact outOfFuel_stores
    · intro w; rw [Traced.parseListElems, Stored.parseListElems]; exact outOfFuel_stores
    · intro w; rw [Traced.parseListElem, Stored.parseListElem]; exact outOfFuel_stores
  | succ fuel ih =>
    obtain ⟨_, _, _, _, _, _, _⟩ := parser_grows next dump fuel
    constructor
    · intro w
      rw [Traced.parseTreeNode, Stored.parseTreeNode]
      refine (onTokens_stores dump).bind fun w _ _ _ _ => ?_
      refine parseNodeName_stores.bind fun w₁ name p _ named => ?_
      refine (onTokens_stores _).bind fun w₂ _ _ le₂ _ => ?_
      refine (ih.nodeArgs w₂).bind fun w₃ args q le₃ given => ?_
      refine (onTokens_stores _).bind fun w₄ _ _ le₄ _ => ?_
      have name_at : w₄.At (.nodeName name) p := named.mono (le₂.trans (le₃.trans le₄))
      exact newNode_stores .treeNode (.mk name args) [.node p, .node q]
        (.cons ⟨p, rfl, name_at⟩ (.cons ⟨q, rfl, given.mono le₄⟩ .nil))
    · intro w
      rw [Traced.parseNodeArgs, Stored.parseNodeArgs]
      refine (onTokens_stores dump).bind fun w _ _ _ _ => ?_
      refine Stores.cond (fun w₁ _ => ?_) fun w₁ _ => Stores.cond (fun w₂ _ => ?_) fun w₂ _ => missedToken_stores
      · refine (ih.nodeArgList w₁).bind fun w₂ list ptrs _ all => ?_
        exact newNode_stores .nodeArgs (.listArgs list) [.list (some ptrs)] (.cons ⟨ptrs, rfl, all⟩ .nil)
      · refine parseLiteral_stores.bind fun w₃ literal p _ at_ => ?_
        exact newNode_stores .nodeArgs (.literalArgs literal) [.node p] (.cons ⟨p, rfl, at_⟩ .nil)
    · intro w
      rw [Traced.parseNodeArgList, Stored.parseNodeArgList]
      refine Stores.cond (fun w₁ _ => ?_) fun w₁ _ => Affords.pure .nil
      refine (onTokens_stores dump).bind fun w₁ _ _ _ _ => (ih.nodeArg w₁).bind fun w₂ arg p _ at_ => ?_
      refine (ih.nodeArgList w₂).bind fun w₃ list ptrs le all => ?_
      exact Affords.pure (.cons (at_.mono le) all)
    · intro w
      rw [Traced.parseNodeArg, Stored.parseNodeArg]
      refine (onTokens_stores dump).bind fun w _ _ _ _ => ?_
      refine argCtxtGuard_stores ((onTokens_stores _).bind fun w₁ _ _ _ _ => (onTokens_stores _).bind fun w₂ _ _ _ _ => ?_)
      refine parseArgName_stores.bind fun w₃ name p _ named => (onTokens_stores _).bind fun w₄ _ _ le₄ _ => ?_
      refine (ih.argValue w₄).bind fun w₅ value q le₅ given => ?_
      exact newNode_stores .nodeArg (.mk name value) [.node p, .node q]
        (.cons ⟨p, rfl, named.mono (le₄.trans le₅)⟩ (.cons ⟨q, rfl, given⟩ .nil))
    · intro w
      rw [Traced.parseArgValue, Stored.parseArgValue]
      refine (onTokens_stores dump).bind fun w _ _ _ _ => ?_
      refine Stores.cond (fun w₁ _ => ?_) fun w₁ _ => Stores.cond (fun w₂ _ => ?_) fun w₂ _ =>
        Stores.cond (fun w₃ _ => ?_) fun w₃ _ => missedToken_stores
      · refine (ih.treeNode w₁).bind fun w₂ node p _ at_ => ?_
        exact newNode_stores .argValue (.nodeValue node) [.node p] (.cons ⟨p, rfl, at_⟩ .nil)
      · refine (onTokens_stores _).bind fun w₃ _ _ _ _ => parseNodeName_stores.bind fun w₄ base p _ named => ?_
        refine (onTokens_stores _).bind fun w₅ _ _ le₅ _ => (onTokens_stores _).bind fun w₆ _ _ le₆ _ => ?_
        refine (ih.listElems w₆).bind fun w₇ elems ptrs le₇ all => (onTokens_stores _).bind fun w₈ _ _ le₈ _ => ?_
        have base_at : w₈.At (.nodeName base) p := named.mono (le₅.trans (le₆.trans (le₇.trans le₈)))
        refine (newNode_stores .nodeList (.mk base elems) [.node p, .list (some ptrs)]
          (.cons ⟨p, rfl, base_at⟩ (.cons ⟨ptrs, rfl, World.at_all_mono all le₈⟩ .nil))).bind fun w₉ list q _ at_ => ?_
        exact newNode_stores .argValue (.listValue list) [.node q] (.cons ⟨q, rfl, at_⟩ .nil)
      · refine parseLiteral_stores.bind fun w₄ literal p _ at_ => ?_
        exact newNode_stores .argValue (.literalValue literal) [.node p] (.cons ⟨p, rfl, at_⟩ .nil)
    · intro w
      rw [Traced.parseListElems, Stored.parseListElems]
      refine Stores.cond (fun w₁ _ => ?_) fun w₁ _ => Affords.pure .nil
      refine (onTokens_stores dump).bind fun w₁ _ _ _ _ => (ih.listElem w₁).bind fun w₂ elem p _ at_ => ?_
      refine (ih.listElems w₂).bind fun w₃ elems ptrs le all => ?_
      exact Affords.pure (.cons (at_.mono le) all)
    · intro w
      rw [Traced.parseListElem, Stored.parseListElem]
      refine (onTokens_stores dump).bind fun w _ _ _ _ => ?_
      refine (onTokens_stores _).bind fun w₁ _ _ _ _ => (onTokens_stores _).bind fun w₂ _ _ _ _ => ?_
      refine (onParser_stores _).bind fun w₃ tok _ _ same => ?_
      subst same
      refine (onParser_stores _).bind fun w₄ index _ _ same => ?_
      subst same
      refine (onTokens_stores _).bind fun w₅ _ _ _ _ => (onTokens_stores _).bind fun w₆ _ _ _ _ => ?_
      refine (ih.treeNode w₆).bind fun w₇ node p _ at_ => ?_
      exact newNode_stores .listElem (.mk index node) [.index index, .node p] (.cons rfl (.cons ⟨p, rfl, at_⟩ .nil))

theorem parseTree_stores (fuel : Nat) : Stores layout fresh w (Traced.parseTree next dump fuel)
    (Stored.parseTree next dump layout fuel) fun w' a p => w'.At (.tree a) p := by
  have grows := (parser_grows next dump fuel).treeNode
  unfold Traced.parseTree Stored.parseTree
  refine (onTokens_stores dump).bind fun w _ _ _ _ => ?_
  refine ((parser_stores fuel).treeNode w).bind fun w₁ root p _ at_ => ?_
  exact newNode_stores .tree ⟨root⟩ [.node p] (.cons ⟨p, rfl, at_⟩ .nil)

/-- The tree becomes the root of the `AST` on one side, and nothing happens on the other. -/
theorem rootNode_run {ast : Store.AST} {tree : AstNode} {p : Nat} (valid : ast.Valid fresh) (holds : w.Holds ast)
    (at_ : w.At tree p) : Store.rootNode p ast = .ok ()
      { ast with root := p, nTreenodes := (w.nodes.filter isTreeNode).length } := by
  have counted : ∀ {nodes : List AstNode} {objects : List NodeObject},
      List.Forall₂ (fun node object => object.type = node.type ∧ List.Forall₂ w.Shows node.parts object.members) nodes objects →
      objects.countP (fun object => object.type = .treeNode) = (nodes.filter isTreeNode).length := by
    intro nodes objects all
    rw [← List.countP_eq_length_filter]
    induction all with
    | nil => rfl
    | @cons node object _ _ both _ ih =>
      have same : (object.type = .treeNode ↔ isTreeNode node = true) := by
        rw [both.1]
        rcases node with _ | _ | _ | _ | _ | (_ | _ | _) | _ | (_ | _) | _ | _ <;> simp [AstNode.type, isTreeNode]
      simp only [List.countP_cons, ih, decide_eq_true_eq, same]
  rw [Store.rootNode, bind_of_ok (check_at valid.sorted holds.ptrs at_), ← counted holds.objects]
  rfl

end Steps

/-- The nodes that a parse makes, also one that fails. -/
def parseNodes (type : InputType) (input : List Char) : List AstNode :=
  let s := Input.init type input
  (finalState (Parser.parse nextToken (2 * s.rest.length + 8) { src := s })).pool

theorem pool_of_parse {type : InputType} {input : List Char} {tree : Tree} {s : ParserState Input}
    (ran : Parser.parse nextToken (2 * (Input.init type input).rest.length + 8) { src := Input.init type input } = .ok tree s) :
    s.pool = tree.nodes :=
  @parse_pool _ nextToken _ nextToken_shrinks _ { src := Input.init type input } _ _ rfl (by simp only; omega) ran

theorem parseNodes_of_parsed {type : InputType} {input : List Char} {tree : Tree} (parsed : parseText type input = .ok tree) :
    parseNodes type input = tree.nodes := by
  unfold parseText at parsed
  unfold parseNodes
  cases ran : Parser.parse nextToken (2 * (Input.init type input).rest.length + 8) { src := Input.init type input } with
  | error stop s =>
    simp only [Parser.result, ran] at parsed
    cases parsed
  | ok tree' s =>
    simp only [Parser.result, ran] at parsed
    cases parsed
    simp only [ran]
    exact pool_of_parse ran

/-- `Parser::parse` before it looks for the end of the text. -/
def parseToEos (next : TokenSource σ) (dump : Parser σ Unit) (fuel : Nat) : Parser σ Tree := do
  Parser.nextToken next
  dump
  Traced.parseTree next dump fuel

def storedToEos (next : TokenSource σ) (dump : Parser σ Unit) (layout : Layout) (fuel : Nat) : StoredParser σ Nat := do
  Stored.onParser (Parser.nextToken next)
  Stored.onParser dump
  Stored.parseTree next dump layout fuel

section Whole
variable {next : TokenSource σ} {dump : Parser σ Unit} {layout : Layout} {fresh : PoolAllocator} {ast : Store.AST}
  {s : ParserState σ} {fuel : Nat}

theorem parse_eq : Traced.parse next dump fuel = (do
    let tree ← parseToEos next dump fuel
    Parser.checkToken .eos
    return tree) := by
  unfold Traced.parse parseToEos
  simp only [bind_assoc]

theorem storedParse_eq : Stored.parse next dump layout fuel = (do
    Stored.onAst (Store.rootNode (← storedToEos next dump layout fuel))
    Stored.onParser (Parser.checkToken .eos)) := by
  unfold Stored.parse storedToEos
  simp only [bind_assoc]

/-- Without tracing code nothing is called. -/
theorem parse_undumped : Traced.parse next (pure ⟨⟩) fuel = Parser.parse next fuel :=
  @parse_adds σ next (pure ⟨⟩) (fun _ _ => True) ⟨fun _ _ => rfl, fun _ => trivial⟩ fuel

/-- The end of the text is looked for after the nodes are made. -/
theorem parse_kept : (finalState (Traced.parse next dump fuel s)).pool = (finalState (parseToEos next dump fuel s)).pool := by
  rw [parse_eq]
  cases ran : parseToEos next dump fuel s with
  | error stop s' => rw [bind_of_error ran]
  | ok tree s' =>
    rw [bind_of_ok ran]
    exact @OnTokens.pool _ _ (do Parser.checkToken .eos; return tree) inferInstance s'

variable [OnTokens dump]

theorem parseToEos_stores : Stores layout fresh ⟨[], []⟩ (parseToEos next dump fuel) (storedToEos next dump layout fuel)
    fun w' a p => w'.At (.tree a) p := by
  have grows := (parser_grows next dump fuel).treeNode
  have grows' : Grows ParserState.pool (Traced.parseTree next dump fuel) := by
    unfold Traced.parseTree
    infer_instance
  exact (onTokens_stores _).bind fun _ _ _ _ _ => (onTokens_stores dump).bind fun _ _ _ _ _ => parseTree_stores fuel

theorem storedParse_short (valid : ast.Valid fresh) (empty : World.Holds ⟨[], []⟩ ast) (start : s.pool = [])
    (full : ¬ ast.pools.Fit layout (finalState (Traced.parse next dump fuel s)).pool) :
    ∃ what t', Stored.parse next dump layout fuel (s, ast) = .error (.store (.alloc (.badAlloc what))) t' := by
  have related : (storeAccount σ layout fresh).rel ⟨[], []⟩ s (s, ast) := ⟨by rw [← start], start, empty, valid⟩
  rw [Pools.Fit, Bool.not_eq_true, Option.isSome_eq_false_iff, Option.isNone_iff_eq_none, parse_kept] at full
  have kept : (finalState (parseToEos next dump fuel s)).pool = s.pool ++ (finalState (parseToEos next dump fuel s)).pool := by
    rw [start, List.nil_append]
  obtain ⟨stop, t', stopped, what, rfl⟩ := parseToEos_stores.short related kept full
  exact ⟨what, t', by rw [storedParse_eq, bind_of_error stopped]⟩

theorem storedParse_paid (valid : ast.Valid fresh) (empty : World.Holds ⟨[], []⟩ ast) (start : s.pool = [])
    (room : ast.pools.Fit layout (finalState (Traced.parse next dump fuel s)).pool) :
    wp (Traced.parse next dump fuel)
      (fun tree s' => ∃ ptrs parser ast', Stored.parse next dump layout fuel (s, ast) = .ok () (parser, ast') ∧
        ptrs.Pairwise (· < ·) ∧ ast'.Closed ∧ World.Holds ⟨s'.pool, ptrs⟩ ast' ∧ World.At ⟨s'.pool, ptrs⟩ (.tree tree) ast'.root ∧
        ast'.nTreenodes = (s'.pool.filter isTreeNode).length)
      (fun stop _ => ∃ t', Stored.parse next dump layout fuel (s, ast) = .error (.parser stop) t') s := by
  have related : (storeAccount σ layout fresh).rel ⟨[], []⟩ s (s, ast) := ⟨by rw [← start], start, empty, valid⟩
  obtain ⟨rest, paid⟩ := Option.isSome_iff_exists.mp room
  rw [parse_kept] at paid
  have kept : (finalState (parseToEos next dump fuel s)).pool = s.pool ++ (finalState (parseToEos next dump fuel s)).pool := by
    rw [start, List.nil_append]
  rw [parse_eq, storedParse_eq, wp_bind]
  refine (parseToEos_stores.paid related kept paid).mono ?_ ?_
  · rintro tree s' ⟨⟨nodes, ptrs⟩, p, ⟨parser, ast'⟩, -, ran, ⟨rfl, rfl, holds, valid'⟩, -, at_⟩
    have rooted := rootNode_run valid' holds at_
    have final : (do Stored.onAst (Store.rootNode p); Stored.onParser (Parser.checkToken .eos)) ({ s' with pool := [] }, ast') =
        Stored.onParser (Parser.checkToken .eos) ({ s' with pool := [] },
          { ast' with root := p, nTreenodes := (s'.pool.filter isTreeNode).length }) :=
      bind_of_ok (by rw [Stored.onAst, rooted])
    have blind := (inferInstance : OnTokens (Parser.checkToken .eos : Parser σ Unit)).blind s' []
    have pool := @OnTokens.pool _ _ (Parser.checkToken .eos : Parser σ Unit) inferInstance s'
    refine wp_bind.mpr ?_
    unfold wp
    cases checked : Parser.checkToken .eos s' with
    | ok _ s'' =>
      rw [checked] at blind pool
      change s''.pool = s'.pool at pool
      refine ⟨ptrs, { s'' with pool := [] }, { ast' with root := p, nTreenodes := (s'.pool.filter isTreeNode).length },
        ?_, ?_, ?_, ?_, ?_, ?_⟩
      · rw [bind_of_ok ran, final, Stored.onParser, blind]
        rfl
      · have recorded : ast'.nodeAlloc.ptrs = ptrs := holds.ptrs
        rw [← recorded]
        exact valid'.sorted
      · exact @AST.Valid.closed fresh _ ⟨valid'.stacked, valid'.objects, valid'.earlier, .inr (holds.ptrs ▸ at_.mem)⟩
      · rw [pool]
        exact ⟨holds.ptrs, holds.length, holds.objects⟩
      · rwa [pool]
      · rw [pool]
    | error stop s'' =>
      rw [checked] at blind
      refine ⟨({ s'' with pool := [] }, { ast' with root := p, nTreenodes := (s'.pool.filter isTreeNode).length }), ?_⟩
      rw [bind_of_ok ran, final, Stored.onParser, blind]
      rfl
  · rintro stop s' ⟨t', stopped⟩
    exact ⟨t', bind_of_error stopped⟩

end Whole

theorem new_empty {nodeHeap rawHeap : Heap} {ast : Store.AST} (made : Store.new nodeHeap rawHeap = some ast) :
    World.Holds ⟨[], []⟩ ast := by
  simp only [Store.new] at made
  split at made
  next nodeAlloc rawAlloc nodes raw =>
    cases made
    exact ⟨(new_stacked nodes (by decide)).recorded, rfl, .nil⟩
  next => cases made

section Texts
variable {layout : Layout} {nodeHeap rawHeap : Heap} {ast : Store.AST} (made : Store.new nodeHeap rawHeap = some ast)
variable {type : InputType} {input : List Char}
include made

theorem storedText_paid (room : ast.pools.Fit layout (parseNodes type input)) :
    (∀ stop, parseText type input = .error stop → Stored.parseText layout type input ast = .error (.parser stop)) ∧
    ∀ tree, parseText type input = .ok tree → parseNodes type input = tree.nodes ∧
      ∃ ptrs ast', Stored.parseText layout type input ast = .ok ast' ∧ ptrs.Pairwise (· < ·) ∧ ast'.Closed ∧
        World.Holds ⟨tree.nodes, ptrs⟩ ast' ∧ World.At ⟨tree.nodes, ptrs⟩ (.tree tree) ast'.root ∧
        ast'.nTreenodes = tree.root.treeNodes.length := by
  obtain ⟨fresh, valid⟩ := Store.new_valid made
  have runs := @storedParse_paid _ nextToken (pure ⟨⟩) layout fresh ast { src := Input.init type input }
    (2 * (Input.init type input).rest.length + 8) _ valid (new_empty made) rfl (by rw [parse_undumped]; exact room)
  rw [parse_undumped] at runs
  unfold parseText Stored.parseText parseNodes
  cases ran : Parser.parse nextToken (2 * (Input.init type input).rest.length + 8) { src := Input.init type input } with
  | error stop s' =>
    obtain ⟨t', stopped⟩ := runs.of_error ran
    simp only [Parser.result, ran, stopped]
    constructor
    · rintro _ ⟨⟩
      rfl
    · rintro _ ⟨⟩
  | ok tree s' =>
    obtain ⟨ptrs, parser, ast', stored, sorted, closed, holds, at_, count⟩ := runs.of_ok ran
    have pool := pool_of_parse ran
    simp only [Parser.result, ran, stored]
    constructor
    · rintro _ ⟨⟩
    · rintro _ ⟨⟩
      rw [pool] at holds at_ count
      refine ⟨pool, ptrs, ast', rfl, sorted, closed, holds, at_, ?_⟩
      rw [count, tree.filter_nodes, List.length_map]

theorem storedText_short (full : ¬ ast.pools.Fit layout (parseNodes type input)) :
    ∃ what, Stored.parseText layout type input ast = .error (.store (.alloc (.badAlloc what))) := by
  obtain ⟨fresh, valid⟩ := Store.new_valid made
  obtain ⟨what, t', stopped⟩ :=
    @storedParse_short _ nextToken (pure ⟨⟩) layout fresh ast { src := Input.init type input }
      (2 * (Input.init type input).rest.length + 8) _ valid (new_empty made) rfl (by rw [parse_undumped]; exact full)
  exact ⟨what, by simp only [Stored.parseText, stopped]⟩

/-- With room for the nodes that the parser makes, a parse into the pools ends as the parse that returns the tree
does: with the same error, or with an `AST` that holds the nodes of the tree, each behind those that it points to and
at a higher address, and has the tree as its root. Without, it ends with `bad_alloc` and nothing else. -/
theorem stored_parse :
    (ast.pools.Fit layout (parseNodes type input) →
      (∀ stop, parseText type input = .error stop → Stored.parseText layout type input ast = .error (.parser stop)) ∧
      ∀ tree, parseText type input = .ok tree → parseNodes type input = tree.nodes ∧
        ∃ ptrs ast', Stored.parseText layout type input ast = .ok ast' ∧ ptrs.Pairwise (· < ·) ∧ ast'.Closed ∧
          World.Holds ⟨tree.nodes, ptrs⟩ ast' ∧ World.At ⟨tree.nodes, ptrs⟩ (.tree tree) ast'.root ∧
          ast'.nTreenodes = tree.root.treeNodes.length) ∧
    (¬ ast.pools.Fit layout (parseNodes type input) →
      ∃ what, Stored.parseText layout type input ast = .error (.store (.alloc (.badAlloc what)))) :=
  ⟨storedText_paid made, storedText_short made⟩

end Texts

/-- A new `AST` with its pools at two addresses. -/
def storeAt : Store.AST where
  nodeAlloc := ⟨8192, 131072, 65552, 65552, [], false⟩
  rawAlloc := ⟨4096, 65536, 1081344, 1081344, [], false⟩

theorem storeAt_new : Store.new (heapAt 16 (by decide)) (heapAt 1048576 (by decide)) = some storeAt := by
  have nodes : PoolAllocator.new (heapAt 16 (by decide)) 8192 131072 = some storeAt.nodeAlloc := by decide +kernel
  have raw : PoolAllocator.new (heapAt 1048576 (by decide)) 4096 65536 = some storeAt.rawAlloc := by decide +kernel
  simp only [Store.new, nodes, raw]
  rfl

/-- Nodes of one size. -/
theorem stored_parse_nested :
    let layout : Layout := ⟨fun _ => 24, fun _ => ⟨3⟩⟩
    ∃ ptrs ast', Stored.parseText layout .text ("A(.a=B())".toList ++ [newline]) storeAt = .ok ast' ∧
      ptrs.Pairwise (· < ·) ∧ ast'.Closed ∧ World.Holds ⟨nestedTree.nodes, ptrs⟩ ast' ∧
      World.At ⟨nestedTree.nodes, ptrs⟩ (.tree nestedTree) ast'.root ∧ ast'.nTreenodes = 2 := by
  intro layout
  have room : storeAt.pools.Fit layout (parseNodes .text ("A(.a=B())".toList ++ [newline])) := by
    unfold Pools.Fit
    decide +kernel
  exact (((stored_parse storeAt_new).1 room).2 nestedTree parseText_nested).2

end CxxpyTree
