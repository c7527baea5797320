import CxxpyTree.LexerTrace
import CxxpyTree.Lib.Credits
import CxxpyTree.StoredRun

/-! How long a text may be for its nodes to fit in the pools: the characters that the parser reads pay for
the nodes that it makes. -/

namespace CxxpyTree
open Machine Store

variable {σ α : Type}

/-- The least number of characters that a token takes in the text. -/
def Token.weight (tok : Token) : Nat :=
  if tok.type = .eos then 0 else if tok.type = .str then tok.lex.length + 2 else max 1 tok.lex.length

/-- A measure of the source from which the tokens are taken by their weight. -/
def Feeds (next : TokenSource σ) (size : σ → Nat) : Prop :=
  ∀ ctxt src tok src', next ctxt src = .ok (tok, src') → size src' + tok.weight ≤ size src

theorem nextToken_feeds : Feeds nextToken fun s => s.rest.length := by
  intro ctxt s tok s' returned
  have skipped := (skipSpaces_suffix s).length_le
  rcases nextToken_ok returned with ⟨rfl, -, rfl⟩ | ⟨item, w, spelled, split, rfl, -⟩
  · simpa [Token.weight] using skipped
  · have weighs : Token.weight { pos := (skipSpaces s).pos, type := item.type ctxt, lex := item.lex } ≤ w.length := by
      have long := spelled.length_pos
      have other : item.type ctxt = .str → item.lex.length + 2 ≤ w.length := by
        intro isStr
        cases spelled with
        | punct char => exact absurd isStr (ischartoken_ne_str char)
        | word => exact absurd isStr (wordType_ne_str ctxt _)
        | literal => simp [Item.lex]
        | number => cases isStr
      have lex : item.lex.length ≤ w.length := by
        cases spelled with
        | literal =>
          simp only [Item.lex, List.length_cons, List.length_append]
          omega
        | _ => exact Nat.le_refl _
      unfold Token.weight
      simp only
      split
      · exact Nat.zero_le _
      · split
        next isStr => exact other isStr
        next => exact Nat.max_le.mpr ⟨long, lex⟩
    rw [split, List.length_append] at skipped
    have left : s'.rest.length + w.length ≤ s.rest.length := by omega
    exact (Nat.add_le_add_left weighs _).trans left

/-- What the nodes cost, when `rate` is paid for a character and an entry of a list pays its `slot` in advance. -/
structure Tariff (cost : AstNode → Nat) (rate slot : Nat) : Prop where
  nodeName : ∀ str, cost (.nodeName ⟨str⟩) ≤ rate * max 1 str.length
  argName : ∀ str, cost (.argName ⟨str⟩) ≤ rate * max 1 str.length
  literal : ∀ str, cost (.literal ⟨str⟩) ≤ rate * (str.length + 2)
  listElem : ∀ elem, cost (.listElem elem) + slot ≤ rate
  nodeList : ∀ base elems, cost (.nodeList (.mk base elems)) ≤ slot * elems.length + rate
  argValue : ∀ value, cost (.argValue value) ≤ rate
  nodeArg : ∀ arg, cost (.nodeArg arg) + slot ≤ rate
  listArgs : ∀ list, cost (.nodeArgs (.listArgs list)) ≤ slot * list.length + rate
  literalArgs : ∀ literal, cost (.nodeArgs (.literalArgs literal)) ≤ rate
  treeNode : ∀ node, cost (.treeNode node) ≤ rate
  tree : ∀ tree, cost (.tree tree) ≤ rate

/-- The characters that are left at their rate, and the cost of the nodes that were made. -/
def ParserState.potential (cost : AstNode → Nat) (rate : Nat) (size : σ → Nat) (s : ParserState σ) : Nat :=
  rate * (size s.src + s.tok.weight) + (s.pool.map cost).sum

section Steps
variable {cost : AstNode → Nat} {rate slot credit : Nat} {size : σ → Nat} {next : TokenSource σ}

/-- A method of the parser under a tariff. -/
abbrev Affordable (cost : AstNode → Nat) (rate : Nat) (size : σ → Nat) (credit : Nat) (x : Parser σ α) (gain : α → Nat) : Prop :=
  Pays (ParserState.potential cost rate size) credit x gain

theorem newNode_affordable {wrap : α → AstNode} {node : α} {left : Nat} (enough : cost (wrap node) + left ≤ credit) :
    Affordable cost rate size credit (Parser.newNode wrap node : Parser σ α) fun _ => left := by
  intro s
  refine wp_newNode.mpr ?_
  simp only [ParserState.potential, List.map_append, List.map_cons, List.map_nil, List.sum_append, List.sum_cons, List.sum_nil]
  omega

/-- The current token is eaten, and what it weighs is paid out. -/
theorem eatToken_affordable (feeds : Feeds next size) {s : ParserState σ} :
    wp (Parser.eatToken next)
      (fun _ s' => s'.prevTok = { s.tok with lex := cstr s.tok.lex } ∧
        s'.potential cost rate size + rate * s.tok.weight ≤ s.potential cost rate size)
      (fun _ s' => s'.potential cost rate size ≤ s.potential cost rate size) s := by
  refine wp_bind.mpr (wp_modify.mpr (wp_nextToken ?_ ?_))
  · intro tok src ran
    have fed := Nat.mul_le_mul_left rate (feeds s.argCtxt s.src tok src ran)
    refine ⟨rfl, ?_⟩
    simp only [ParserState.potential, Nat.mul_add] at fed ⊢
    omega
  · intro stop ran
    exact Nat.le_refl _

theorem Token.one_le_weight {tok : Token} (inner : tok.type ≠ .eos) : 1 ≤ tok.weight := by
  unfold Token.weight
  rw [if_neg inner]
  split <;> omega

theorem needToken_affordable (feeds : Feeds next size) {type : TokenType} (inner : type ≠ .eos) :
    Affordable cost rate size 0 (Parser.needToken next type) fun _ => rate := by
  intro s
  refine wp_bind.mpr (wp_checkToken ?_ fun _ => Nat.le_refl _)
  rintro rfl
  refine (eatToken_affordable feeds).mono ?_ fun _ _ paid => paid
  rintro _ s' ⟨-, paid⟩
  exact (Nat.add_le_add_left (Nat.le_mul_of_pos_right rate (Token.one_le_weight inner)) _).trans paid

/-- The lexeme of a name or a literal is paid for by its characters. -/
theorem lexeme_affordable (feeds : Feeds next size) {type : TokenType} (wrap : Token → AstNode)
    (price : ∀ tok : Token, tok.type = type → cost (wrap { tok with lex := cstr tok.lex }) ≤ rate * tok.weight) :
    Affordable cost rate size 0 (do Parser.needToken next type; Parser.prevTok) fun tok => cost (wrap tok) := by
  intro s
  refine wp_bind.mpr (wp_bind.mpr (wp_checkToken ?_ fun _ => Nat.le_refl _))
  intro same
  refine (eatToken_affordable feeds).mono ?_ fun _ _ paid => paid
  rintro _ s' ⟨lex, paid⟩
  rw [wp_prevTok, lex]
  exact (Nat.add_le_add_left (price s.tok same) _).trans paid

theorem tryToken_affordable (feeds : Feeds next size) {type : TokenType} (inner : type ≠ .eos) :
    Affordable cost rate size 0 (Parser.tryToken next type) fun eaten => if eaten then rate else 0 := by
  intro s
  refine wp_bind.mpr (wp_peekToken.mpr (wp_ite.mpr ⟨fun same => ?_, fun _ => Nat.le_refl _⟩))
  have type_eq : s.tok.type = type := by simpa using same
  refine wp_bind.mpr ((eatToken_affordable feeds).mono ?_ fun _ _ paid => paid)
  rintro _ s' ⟨-, paid⟩
  exact (Nat.add_le_add_left (Nat.le_mul_of_pos_right rate (Token.one_le_weight (type_eq ▸ inner))) _).trans paid

/-- A method that reads or makes nothing. -/
theorem still_affordable {x : Parser σ α} (still : ∀ s, (finalState (x s)).src = s.src ∧ (finalState (x s)).tok = s.tok ∧
    (finalState (x s)).pool = s.pool) : Affordable cost rate size credit x fun _ => 0 := by
  intro s
  obtain ⟨src, tok, pool⟩ := still s
  have same : (finalState (x s)).potential cost rate size = s.potential cost rate size := by
    simp only [ParserState.potential, src, tok, pool]
  unfold wp
  cases ran : x s with
  | ok a s' =>
    rw [ran] at same
    exact same.le.trans (Nat.le_add_right _ _)
  | error stop s' =>
    rw [ran] at same
    exact same.le.trans (Nat.le_add_right _ _)

theorem peekToken_affordable {types : List TokenType} :
    Affordable cost rate size credit (Parser.peekToken types : Parser σ Bool) fun _ => 0 :=
  still_affordable fun _ => ⟨rfl, rfl, rfl⟩

theorem listElemIdx_affordable {str : CStr} {pos : Pos} :
    Affordable cost rate size credit (Parser.listElemIdx str pos : Parser σ UInt8) fun _ => 0 := by
  unfold Parser.listElemIdx
  split
  · exact .pure (Nat.zero_le _)
  · exact .throw

theorem missedToken_affordable {func : String} {gain : α → Nat} :
    Affordable cost rate size credit (Parser.missedToken func : Parser σ α) gain := by
  intro s
  exact wp_missedToken.mpr (Nat.le_add_right _ _)

theorem cstr_length_le (str : List Char) : (cstr str).length ≤ str.length := (List.takeWhile_sublist _).length_le

/-- A lexeme that is no literal. -/
theorem Token.plain_weight {tok : Token} (inner : tok.type ≠ .eos) (plain : tok.type ≠ .str) :
    max 1 (cstr tok.lex).length ≤ tok.weight := by
  rw [Token.weight, if_neg inner, if_neg plain]
  exact max_le_max_left 1 (cstr_length_le tok.lex)

theorem Token.literal_weight {tok : Token} (isStr : tok.type = .str) : (cstr tok.lex).length + 2 ≤ tok.weight := by
  rw [Token.weight, if_neg (by simp [isStr]), if_pos isStr]
  exact Nat.add_le_add_right (cstr_length_le tok.lex) 2

variable (tariff : Tariff cost rate slot) (feeds : Feeds next size)
include tariff feeds

theorem parseNodeName_affordable : Affordable cost rate size 0 (Parser.parseNodeName next) fun _ => 0 := by
  unfold Parser.parseNodeName
  rw [← bind_assoc]
  refine (lexeme_affordable feeds (fun tok => .nodeName ⟨tok.lex⟩) ?_).free_bind fun tok => newNode_affordable le_rfl
  intro tok isIdent
  have weighs := @Token.plain_weight tok (by simp [isIdent]) (by simp [isIdent])
  exact (tariff.nodeName _).trans (Nat.mul_le_mul_left rate weighs)

theorem parseArgName_affordable : Affordable cost rate size 0 (Parser.parseArgName next) fun _ => 0 := by
  unfold Parser.parseArgName
  rw [← bind_assoc]
  refine (lexeme_affordable feeds (fun tok => .argName ⟨tok.lex⟩) ?_).free_bind fun tok => newNode_affordable le_rfl
  intro tok isName
  have weighs := @Token.plain_weight tok (by simp [isName]) (by simp [isName])
  exact (tariff.argName _).trans (Nat.mul_le_mul_left rate weighs)

theorem parseLiteral_affordable : Affordable cost rate size 0 (Parser.parseLiteral next) fun _ => 0 := by
  unfold Parser.parseLiteral
  rw [← bind_assoc]
  refine (lexeme_affordable feeds (fun tok => .literal ⟨tok.lex⟩) ?_).free_bind fun tok => newNode_affordable le_rfl
  intro tok isStr
  exact (tariff.literal _).trans (Nat.mul_le_mul_left rate (Token.literal_weight isStr))

/-- The methods that call each other pay for the nodes that they make with the tokens that they eat. -/
structure ParserAffordable (cost : AstNode → Nat) (rate slot : Nat) (size : σ → Nat) (next : TokenSource σ) (fuel : Nat) : Prop where
  treeNode : Affordable cost rate size 0 (Parser.parseTreeNode next fuel) fun _ => 0
  nodeArgs : Affordable cost rate size rate (Parser.parseNodeArgs next fuel) fun _ => 0
  nodeArgList : Affordable cost rate size 0 (Parser.parseNodeArgList next fuel) fun list => slot * list.length
  nodeArg : Affordable cost rate size 0 (Parser.parseNodeArg next fuel) fun _ => slot
  argValue : Affordable cost rate size rate (Parser.parseArgValue next fuel) fun _ => 0
  listElems : Affordable cost rate size 0 (Parser.parseListElems next fuel) fun elems => slot * elems.length
  listElem : Affordable cost rate size 0 (Parser.parseListElem next fuel) fun _ => slot

theorem parser_affordable (fuel : Nat) : ParserAffordable cost rate slot size next fuel := by
  induction fuel with
  | zero =>
    constructor
    · rw [Parser.parseTreeNode]; exact .throw
    · rw [Parser.parseNodeArgs]; exact .throw
    · rw [Parser.parseNodeArgList]; exact .throw
    · rw [Parser.parseNodeArg]; exact .throw
    · rw [Parser.parseArgValue]; exact .throw
    · rw [Parser.parseListElems]; exact .throw
    · rw [Parser.parseListElem]; exact .throw
  | succ fuel ih =>
    constructor
    · rw [Parser.parseTreeNode]
      refine (parseNodeName_affordable tariff feeds).free_bind fun name => ?_
      refine (needToken_affordable feeds (by simp)).free_bind fun _ => ?_
      refine ih.nodeArgs.bind (by omega) fun args => ?_
      refine (needToken_affordable feeds (by simp)).free_bind fun _ => newNode_affordable ?_
      have price := tariff.treeNode (.mk name args)
      omega
    · rw [Parser.parseNodeArgs]
      refine peekToken_affordable.free_bind fun _ => .ite (fun _ => ?_) fun _ => peekToken_affordable.free_bind fun _ =>
        .ite (fun _ => ?_) fun _ => missedToken_affordable
      · refine ih.nodeArgList.free_bind fun list => newNode_affordable ?_
        have price := tariff.listArgs list
        omega
      · refine (parseLiteral_affordable tariff feeds).free_bind fun literal => newNode_affordable ?_
        have price := tariff.literalArgs literal
        omega
    · rw [Parser.parseNodeArgList]
      refine peekToken_affordable.free_bind fun _ => .ite (fun _ => ?_) fun _ => .pure (by simp)
      refine ih.nodeArg.free_bind fun arg => ih.nodeArgList.free_bind fun list => .pure ?_
      rw [List.length_cons, Nat.mul_succ]
      omega
    · rw [Parser.parseNodeArg]
      refine .guarded (fun _ => rfl) (fun _ => rfl) ((needToken_affordable feeds (by simp)).free_bind fun _ => ?_)
      refine (still_affordable fun _ => ⟨rfl, rfl, rfl⟩).free_bind fun _ => ?_
      refine (parseArgName_affordable tariff feeds).free_bind fun name => ?_
      refine (needToken_affordable feeds (by simp)).free_bind fun _ => ?_
      refine ih.argValue.bind (by omega) fun value => newNode_affordable ?_
      have price := tariff.nodeArg (.mk name value)
      omega
    · rw [Parser.parseArgValue]
      have value_price := tariff.argValue
      refine peekToken_affordable.free_bind fun _ => .ite (fun _ => ?_) fun _ => ?_
      · refine ih.treeNode.free_bind fun node => newNode_affordable ?_
        have price := tariff.argValue (.nodeValue node)
        omega
      refine (tryToken_affordable feeds (by simp)).free_bind fun eaten => .ite (fun isList => ?_) fun _ => ?_
      · rw [if_pos isList]
        refine (needToken_affordable feeds (by simp)).free_bind fun _ => ?_
        refine (parseNodeName_affordable tariff feeds).free_bind fun base => ?_
        refine (needToken_affordable feeds (by simp)).free_bind fun _ => ?_
        refine (needToken_affordable feeds (by simp)).free_bind fun _ => ?_
        refine ih.listElems.free_bind fun elems => (needToken_affordable feeds (by simp)).free_bind fun _ => ?_
        have list_price := tariff.nodeList base elems
        refine (newNode_affordable (Nat.le_refl (cost (.nodeList (.mk base elems)) + rate))).bind (by omega) fun list =>
          newNode_affordable ?_
        have price := tariff.argValue (.listValue list)
        omega
      refine peekToken_affordable.free_bind fun _ => .ite (fun _ => ?_) fun _ => missedToken_affordable
      refine (parseLiteral_affordable tariff feeds).free_bind fun literal => newNode_affordable ?_
      have price := tariff.argValue (.literalValue literal)
      omega
    · rw [Parser.parseListElems]
      refine peekToken_affordable.free_bind fun _ => .ite (fun _ => ?_) fun _ => .pure (by simp)
      refine ih.listElem.free_bind fun elem => ih.listElems.free_bind fun elems => .pure ?_
      rw [List.length_cons, Nat.mul_succ]
      omega
    · rw [Parser.parseListElem]
      refine (needToken_affordable feeds (by simp)).free_bind fun _ => ?_
      refine (needToken_affordable feeds (by simp)).free_bind fun _ => ?_
      refine (still_affordable fun _ => ⟨rfl, rfl, rfl⟩).free_bind fun tok => listElemIdx_affordable.free_bind fun index => ?_
      refine (needToken_affordable feeds (by simp)).free_bind fun _ => ?_
      refine (needToken_affordable feeds (by simp)).free_bind fun _ => ?_
      refine ih.treeNode.free_bind fun node => newNode_affordable ?_
      have price := tariff.listElem (.mk index node)
      omega

/-- The nodes of a whole parse, also of one that fails. -/
theorem parse_cost (fuel : Nat) (src : σ) :
    ((finalState (Parser.parse next fuel { src })).pool.map cost).sum ≤ rate * (size src + 1) := by
  have tree : Affordable cost rate size rate (Parser.parseTree next fuel) fun _ => 0 := by
    unfold Parser.parseTree
    refine (parser_affordable tariff feeds fuel).treeNode.free_bind fun root => newNode_affordable ?_
    have price := tariff.tree ⟨root⟩
    omega
  have rest : Affordable cost rate size rate (do let tree ← Parser.parseTree next fuel; Parser.checkToken .eos; return tree)
      fun _ => 0 := by
    refine tree.bind le_rfl fun _ => ?_
    refine (still_affordable fun s => ?_).free_bind fun _ => .pure (Nat.zero_le _)
    unfold Parser.checkToken
    rw [get_bind]
    split <;> exact ⟨rfl, rfl, rfl⟩
  unfold Parser.parse
  have step : wp (Parser.nextToken next) (fun _ s => s.potential cost rate size ≤ rate * size src)
      (fun _ s => s.pool = []) { src } := by
    refine wp_nextToken (fun tok src' ran => ?_) fun _ _ => rfl
    exact Nat.mul_le_mul_left rate (feeds false src tok src' ran)
  cases ran : Parser.nextToken next { src } with
  | error stop s =>
    rw [bind_of_error ran]
    have none : s.pool = [] := step.of_error ran
    simp only [finalState, none]
    exact Nat.zero_le _
  | ok _ s =>
    rw [bind_of_ok ran]
    have first := step.of_ok ran
    have paid := rest.finalState_le s
    rw [Nat.mul_succ]
    unfold ParserState.potential at first paid
    omega

end Steps

/-! The pools. -/

section Room

/-- There is room for some more objects, and for some more bytes. -/
structure PoolAllocator.Room (objs bytes : Nat) (s : PoolAllocator) : Prop where
  bottom : s.pool ≤ s.ptr
  addressable : s.pool + s.poolSz < wordSize
  objects : s.ptrs.length + objs ≤ s.nobjs
  bytes : s.ptr + bytes ≤ s.pool + s.poolSz

/-- A block takes its bytes and at most one alignment. -/
theorem PoolAllocator.Room.take {objs bytes need nbytes align : Nat} {s : PoolAllocator}
    (room : s.Room (objs + 1) (bytes + need)) (small : max 1 nbytes + align ≤ need) (positive : 0 < align) :
    ∃ s', s.take nbytes align = some s' ∧ s'.Room objs bytes := by
  obtain ⟨bottom, addressable, objects, bytes_le⟩ := room
  have size : (if nbytes = 0 then 1 else nbytes) = max 1 nbytes := by split <;> omega
  have ran := @allocate_run s nbytes align bottom (by omega) addressable (by omega) positive (by omega)
  have pad : align - s.ptr % align ≤ align := Nat.sub_le _ _
  simp only [size] at ran
  rw [if_neg (by omega), if_neg (by omega)] at ran
  refine ⟨_, by rw [PoolAllocator.take, ran], ?_⟩
  constructor
  · simp only
    omega
  · exact addressable
  · simp only [List.length_append, List.length_singleton]
    omega
  · simp only
    omega

theorem PoolAllocator.Room.mono {objs objs' bytes bytes' : Nat} {s : PoolAllocator} (room : s.Room objs bytes)
    (fewer : objs' ≤ objs) (less : bytes' ≤ bytes) : s.Room objs' bytes' :=
  ⟨room.bottom, room.addressable, (Nat.add_le_add_left fewer _).trans room.objects,
    (Nat.add_le_add_left less _).trans room.bytes⟩

/-- The blocks that the copy of a member takes. -/
def Part.blocks : Part → Nat
  | .string _ | .list _ => 1
  | _ => 0

/-- A bound of their bytes, with what is lost to alignment. -/
def Part.bytes : Part → Nat
  | .string str => str.length + 2
  | .list nodes => PoolAllocator.ptrSize * nodes.length + PoolAllocator.ptrSize
  | _ => 0

def AstNode.rawBytes (node : AstNode) : Nat := (node.parts.map Part.bytes).sum

theorem Part.copy_room {objs bytes : Nat} {raw : PoolAllocator} (part : Part)
    (room : raw.Room (objs + part.blocks) (bytes + part.bytes)) : ∃ raw', part.copy raw = some raw' ∧ raw'.Room objs bytes := by
  cases part with
  | string str =>
    have less := Nat.mod_le (1 + str.length) wordSize
    exact room.take (by simp only [Part.bytes]; omega) Nat.one_pos
  | list nodes =>
    rw [Part.copy]
    split
    next some =>
      have less := Nat.mod_le (PoolAllocator.ptrSize * nodes.length) wordSize
      have pos : 1 ≤ PoolAllocator.ptrSize * nodes.length := Nat.mul_pos (by decide) (Nat.pos_of_ne_zero some)
      exact room.take (by simp only [Part.bytes]; omega) (by decide)
    next => exact ⟨raw, rfl, room.mono (Nat.le_add_right _ _) (Nat.le_add_right _ _)⟩
  | index index => exact ⟨raw, rfl, room⟩
  | node node => exact ⟨raw, rfl, room⟩

theorem copies_room {objs bytes : Nat} {parts : List Part} {raw : PoolAllocator}
    (room : raw.Room (objs + (parts.map Part.blocks).sum) (bytes + (parts.map Part.bytes).sum)) :
    ∃ raw', parts.foldlM Part.copy raw = some raw' ∧ raw'.Room objs bytes := by
  induction parts generalizing raw with
  | nil => exact ⟨raw, rfl, room⟩
  | cons part parts ih =>
    simp only [List.map_cons, List.sum_cons] at room
    have first : raw.Room (objs + (parts.map Part.blocks).sum + part.blocks) (bytes + (parts.map Part.bytes).sum + part.bytes) :=
      room.mono (by omega) (by omega)
    obtain ⟨raw₁, copied, room₁⟩ := part.copy_room first
    obtain ⟨raw₂, copied₂, room₂⟩ := ih room₁
    refine ⟨raw₂, ?_, room₂⟩
    rw [List.foldlM_cons, copied]
    exact copied₂

theorem AstNode.blocks_le (node : AstNode) : (node.parts.map Part.blocks).sum ≤ 1 := by
  rcases node with _ | ⟨_, _⟩ | _ | ⟨_, _⟩ | _ | (_ | _ | _) | ⟨_, _⟩ | (_ | _) | ⟨_, _⟩ | _ <;>
    simp [AstNode.parts, Part.blocks]

theorem fit_of_room {layout : Layout} {unit : Nat}
    (small : ∀ type, max 1 (layout.size type).toNat + (layout.align type).value ≤ unit) {nodes : List AstNode} {pools : Pools}
    (room : pools.nodes.Room nodes.length (unit * nodes.length))
    (raw : pools.raw.Room nodes.length (nodes.map AstNode.rawBytes).sum) : pools.Fit layout nodes := by
  induction nodes generalizing pools with
  | nil => rfl
  | cons node nodes ih =>
    simp only [List.map_cons, List.sum_cons, List.length_cons, Nat.mul_succ] at room raw
    have one := node.blocks_le
    have first : pools.raw.Room (nodes.length + (node.parts.map Part.blocks).sum)
        ((nodes.map AstNode.rawBytes).sum + (node.parts.map Part.bytes).sum) :=
      raw.mono (by omega) (by unfold AstNode.rawBytes; omega)
    obtain ⟨raw₁, copied, rawRoom⟩ := copies_room first
    obtain ⟨nodes₁, taken, nodesRoom⟩ := room.take (small node.type) (layout.align node.type).positive
    have added : pools.add layout node = some { nodes := nodes₁, raw := raw₁ } := by
      rw [Pools.add, copied, Option.bind_eq_bind, Option.bind_some, taken]
      rfl
    have rest : Pools.Fit layout { nodes := nodes₁, raw := raw₁ } nodes := ih nodesRoom rawRoom
    rwa [Pools.Fit, List.foldlM_cons, added]

end Room

/-- The number of nodes is one for each character at most, and a last one. -/
theorem count_tariff : Tariff (fun _ => 1) 1 0 where
  nodeName str := by omega
  argName str := by omega
  literal str := by omega
  listElem elem := by omega
  nodeList base elems := by omega
  argValue value := by omega
  nodeArg arg := by omega
  listArgs list := by omega
  literalArgs literal := by omega
  treeNode node := by omega
  tree tree := by omega

theorem rawBytes_tariff : Tariff AstNode.rawBytes 8 8 where
  nodeName str := by simp [AstNode.rawBytes, AstNode.parts, Part.bytes]; omega
  argName str := by simp [AstNode.rawBytes, AstNode.parts, Part.bytes]; omega
  literal str := by
    simp only [AstNode.rawBytes, AstNode.parts, Part.bytes, List.map_cons, List.map_nil, List.sum_cons, List.sum_nil]
    omega
  listElem elem := by cases elem; simp [AstNode.rawBytes, AstNode.parts, Part.bytes]
  nodeList base elems := by simp [AstNode.rawBytes, AstNode.parts, Part.bytes, PoolAllocator.ptrSize]
  argValue value := by cases value <;> simp [AstNode.rawBytes, AstNode.parts, Part.bytes]
  nodeArg arg := by cases arg; simp [AstNode.rawBytes, AstNode.parts, Part.bytes]
  listArgs list := by simp [AstNode.rawBytes, AstNode.parts, Part.bytes, PoolAllocator.ptrSize]
  literalArgs literal := by simp [AstNode.rawBytes, AstNode.parts, Part.bytes]
  treeNode node := by cases node; simp [AstNode.rawBytes, AstNode.parts, Part.bytes]
  tree tree := by simp [AstNode.rawBytes, AstNode.parts, Part.bytes]

theorem inputBytes_length_le (type : InputType) (input : List Char) :
    (Input.init type input).rest.length ≤ input.length := by
  have trimmed : ∀ text : List Char, (trimNewline text).length ≤ text.length := by
    intro text
    unfold trimNewline
    split
    · simp
    · exact le_rfl
  refine (trimmed _).trans ?_
  cases type with
  | text => exact cstr_length_le input
  | file => exact le_rfl

theorem parseNodes_length (type : InputType) (input : List Char) : (parseNodes type input).length ≤ input.length + 1 := by
  have cost := parse_cost count_tariff nextToken_feeds (2 * (Input.init type input).rest.length + 8) (Input.init type input)
  have shorter := inputBytes_length_le type input
  rw [List.map_const', List.sum_replicate_nat, Nat.mul_one, Nat.one_mul] at cost
  exact cost.trans (Nat.succ_le_succ shorter)

theorem parseNodes_rawBytes (type : InputType) (input : List Char) :
    ((parseNodes type input).map AstNode.rawBytes).sum ≤ 8 * (input.length + 1) := by
  have cost := parse_cost rawBytes_tariff nextToken_feeds (2 * (Input.init type input).rest.length + 8) (Input.init type input)
  have shorter := inputBytes_length_le type input
  exact cost.trans (Nat.mul_le_mul_left 8 (Nat.succ_le_succ shorter))

theorem new_room {heap : Heap} {nobjs poolSz : UInt64} {fresh : PoolAllocator} (made : PoolAllocator.new heap nobjs poolSz = some fresh)
    (fits : nobjs.toNat * PoolAllocator.ptrSize + poolSz.toNat < wordSize) : fresh.Room nobjs.toNat poolSz.toNat := by
  have stacked := new_stacked made fits
  have start : fresh.ptrs = [] ∧ fresh.ptr = fresh.pool ∧ fresh.nobjs = nobjs.toNat ∧ fresh.poolSz = poolSz.toNat := by
    simp only [PoolAllocator.new] at made
    split at made
    next => cases made
    next =>
      cases made
      exact ⟨rfl, rfl, rfl, rfl⟩
  obtain ⟨none, bottom, nobjs_eq, poolSz_eq⟩ := start
  constructor
  · exact bottom.ge
  · exact stacked.addressable
  · simp [none, nobjs_eq]
  · rw [bottom, poolSz_eq]

/-- The nodes of a text fit in the pools of a new `AST` if the text is shorter than `raw_alloc` has objects, and
`node_alloc` has room for one node of the largest class for each character and one more. -/
theorem short_fits {layout : Layout} {nodeHeap rawHeap : Heap} {ast : Store.AST} (made : Store.new nodeHeap rawHeap = some ast)
    {unit : Nat} (small : ∀ type, max 1 (layout.size type).toNat + (layout.align type).value ≤ unit) {input : List Char}
    (fewer : input.length < 4096) (shorter : unit * (input.length + 1) ≤ 131072) (type : InputType) :
    ast.pools.Fit layout (parseNodes type input) := by
  have nodes := parseNodes_length type input
  have bytes := parseNodes_rawBytes type input
  have units := Nat.mul_le_mul_left unit nodes
  simp only [Store.new] at made
  split at made
  next nodeAlloc rawAlloc nodeMade rawMade =>
    cases made
    have nodeRoom : nodeAlloc.Room 8192 131072 := new_room nodeMade (by decide)
    have rawRoom : rawAlloc.Room 4096 65536 := new_room rawMade (by decide)
    exact fit_of_room small (nodeRoom.mono (by omega) (by omega)) (rawRoom.mono (by omega) (by omega))
  next => cases made

/-- However the parse of a short text ends, it is not for lack of room. -/
theorem short_text_stored {layout : Layout} {nodeHeap rawHeap : Heap} {ast : Store.AST}
    (made : Store.new nodeHeap rawHeap = some ast) {unit : Nat}
    (small : ∀ type, max 1 (layout.size type).toNat + (layout.align type).value ≤ unit) {input : List Char}
    (fewer : input.length < 4096) (shorter : unit * (input.length + 1) ≤ 131072) (type : InputType) :
    (∀ stop, parseText type input = .error stop → Stored.parseText layout type input ast = .error (.parser stop)) ∧
    ∀ tree, parseText type input = .ok tree → ∃ ptrs ast', Stored.parseText layout type input ast = .ok ast' ∧
      World.Holds ⟨tree.nodes, ptrs⟩ ast' ∧ World.At ⟨tree.nodes, ptrs⟩ (.tree tree) ast'.root := by
  obtain ⟨stops, returns⟩ := storedText_paid made (short_fits made small fewer shorter type)
  refine ⟨stops, fun tree parsed => ?_⟩
  obtain ⟨-, ptrs, ast', ran, -, -, holds, at_, -⟩ := returns tree parsed
  exact ⟨ptrs, ast', ran, holds, at_⟩

/-- Nodes of at most 24 bytes are all right for texts of up to 4095 characters. -/
theorem short_text_stored_nested :
    let layout : Layout := ⟨fun _ => 24, fun _ => ⟨3⟩⟩
    ∃ ptrs ast', Stored.parseText layout .text ("A(.a=B())".toList ++ [newline]) storeAt = .ok ast' ∧
      World.Holds ⟨nestedTree.nodes, ptrs⟩ ast' ∧ World.At ⟨nestedTree.nodes, ptrs⟩ (.tree nestedTree) ast'.root := by
  intro layout
  have small : ∀ type, max 1 (layout.size type).toNat + (layout.align type).value ≤ 32 := by
    intro type
    have unit : max 1 (24 : UInt64).toNat + (⟨3⟩ : Alignment).value ≤ 32 := by decide
    exact unit
  exact (short_text_stored storeAt_new small (by decide) (by decide) .text).2 nestedTree parseText_nested

end CxxpyTree
