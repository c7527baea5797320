import CxxpyTree.EvaluatorRefinement

/-! A maker that evaluates one tree after the other. Its lookup cache never shows. Its arity flag
does: the error that is thrown while a check object is made leaves it up. -/

namespace CxxpyTree.Obj
open Machine

variable {ι V : Type}

section Cache
variable {t : TypeTable ι}

/-- A valid cache stays valid, also where the program stops. -/
abbrev KeepsCache {α : Type} (t : TypeTable ι) (x : EvalM ι V α) : Prop := KeepsMaker t.CacheValid x

/-- The functions of a maker leave its cache valid. -/
abbrev Maker.KeepsCache (t : TypeTable ι) (maker : Maker ι V) : Prop := maker.Keeps t.CacheValid

theorem find_keeps (name : CStr) : Keeps t.CacheValid (t.find name) := by
  intro m valid
  unfold wp
  cases outcome : t.find name m with
  | ok entry m' => exact (find_valid valid outcome).2
  | error e m' => rw [find_error outcome]; exact valid

variable [DecidableEq ι] {strict : Bool}

theorem typeMaker_keepsCache : (TypeMaker t strict).KeepsCache t :=
  typeMaker_keeps (I := t.CacheValid) fun _ _ => cacheValid_of_cache rfl

omit [DecidableEq ι] in
theorem grant_keepsCache (req : Request ι) : Keeps t.CacheValid (grant req) := .modify fun _ => cacheValid_of_cache rfl

omit [DecidableEq ι] in
theorem demand_keepsCache {classes : Classes ι} {pools : Pools} (req : Request ι) :
    Keeps t.CacheValid (demand classes pools req) := by
  intro m valid
  unfold wp demand
  cases serveAll classes pools (m.asked ++ [req]) with
  | ok _ => exact cacheValid_of_cache rfl valid
  | error _ => exact valid

theorem nodeMakerOn_keepsCache {ask : Request ι → MakerM ι Unit} (asks : ∀ req, Keeps t.CacheValid (ask req)) :
    (NodeMaker.on t strict ask).KeepsCache t :=
  nodeMaker_keeps (I := t.CacheValid) (fun _ _ => cacheValid_of_cache rfl) asks fun _ _ => cacheValid_of_cache rfl

theorem nodeMaker_keepsCache : (NodeMaker t strict).KeepsCache t := nodeMakerOn_keepsCache grant_keepsCache

end Cache

section Steady
variable {t : TypeTable ι}

theorem find_steady {name : CStr} : Steady t.CacheValid (t.find name) := by
  refine ⟨t.lookup name, fun m valid => ⟨?_, ?_⟩⟩
  · rw [find_eq valid]
    cases t.lookup name <;> rfl
  · have kept : wp (t.find name) _ _ m := find_keeps name m valid
    unfold wp at kept
    cases found : t.find name m <;> (rw [found] at kept; exact kept)

theorem check_steady {α : Type} {answer : Except (Stop ι) α} : Steady t.CacheValid (check answer) := by
  cases answer with
  | ok a => exact Steady.pure
  | error stop => exact Steady.throw

theorem modify_steady {change : MakerState ι → MakerState ι} (same : ∀ m, (change m).cache = m.cache) :
    Steady t.CacheValid (modify change : MakerM ι PUnit) :=
  Steady.modify fun m valid => cacheValid_of_cache (same m) valid

theorem failArity_steady {err : ObjError} : Steady t.CacheValid (failArity (α := Unit) err) :=
  Steady.bind (modify_steady fun _ => rfl) fun _ => .throw

variable [DecidableEq ι] {strict : Bool} {vals : Values ι V}

theorem checkNodeValues_steady {objType : V → ObjType ι} {type : ι} {args : NodeArgs} {objs : List (StackObj V)} :
    Steady t.CacheValid (checkNodeValues t strict objType type args objs) := by
  cases args with
  | literalArgs literal =>
    refine failArity_steady.ite ?_
    split
    · exact check_steady
    · exact Steady.pure
  | listArgs list => exact failArity_steady.ite check_steady

theorem nodeFromValues_steady {type : ι} {args : NodeArgs} {objs : List (StackObj V)} :
    Steady t.CacheValid (nodeFromValues t strict vals type args objs) :=
  checkNodeValues_steady.bind fun _ => Steady.bind (modify_steady fun _ => rfl) fun _ =>
    check_steady.bind fun _ => Steady.bind (modify_steady fun _ => rfl) fun _ => .pure

theorem listFromValues_steady {type : ι} {values : List V} :
    Steady t.CacheValid (listFromValues t strict vals type values) :=
  check_steady.bind fun _ => Steady.bind (modify_steady fun _ => rfl) fun _ => check_steady

mutual

theorem valueTreeNode_steady (node : TreeNode) : Steady t.CacheValid (valueTreeNode t strict vals node) := by
  cases node with
  | mk name args =>
    rw [valueTreeNode]
    exact (valueNodeArgs_steady args).bind fun _ => find_steady.bind fun _ => nodeFromValues_steady
  termination_by structural node

theorem valueNodeArgs_steady (args : NodeArgs) : Steady t.CacheValid (valueNodeArgs t strict vals args) := by
  cases args with
  | listArgs list =>
    rw [valueNodeArgs]
    exact valueNodeArgList_steady list
  | literalArgs literal =>
    rw [valueNodeArgs]
    exact Steady.pure
  termination_by structural args

theorem valueNodeArgList_steady (list : List NodeArg) : Steady t.CacheValid (valueNodeArgList t strict vals list) := by
  cases list with
  | nil =>
    rw [valueNodeArgList]
    exact Steady.pure
  | cons arg list =>
    rw [valueNodeArgList]
    exact (valueNodeArg_steady arg).bind fun _ => (valueNodeArgList_steady list).bind fun _ => .pure
  termination_by structural list

theorem valueNodeArg_steady (arg : NodeArg) : Steady t.CacheValid (valueNodeArg t strict vals arg) := by
  cases arg with
  | mk name value =>
    rw [valueNodeArg]
    exact (valueArgValue_steady value).bind fun _ => .pure
  termination_by structural arg

theorem valueArgValue_steady (arg : ArgValue) : Steady t.CacheValid (valueArgValue t strict vals arg) := by
  cases arg with
  | nodeValue node =>
    rw [valueArgValue]
    exact valueTreeNode_steady node
  | listValue list =>
    rw [valueArgValue]
    exact valueNodeList_steady list
  | literalValue literal =>
    rw [valueArgValue]
    exact Steady.pure
  termination_by structural arg

theorem valueNodeList_steady (list : NodeList) : Steady t.CacheValid (valueNodeList t strict vals list) := by
  cases list with
  | mk base elems =>
    rw [valueNodeList]
    exact (valueListElems_steady elems 0).bind fun _ => find_steady.bind fun _ => listFromValues_steady
  termination_by structural list

theorem valueListElems_steady (elems : List ListElem) (k : Nat) :
    Steady t.CacheValid (valueListElems t strict vals elems k) := by
  cases elems with
  | nil =>
    rw [valueListElems]
    exact Steady.pure
  | cons elem elems =>
    rw [valueListElems]
    exact (valueListElem_steady elem k).bind fun _ => (valueListElems_steady elems (k + 1)).bind fun _ => .pure
  termination_by structural elems

theorem valueListElem_steady (elem : ListElem) (k : Nat) : Steady t.CacheValid (valueListElem t strict vals elem k) := by
  cases elem with
  | mk index node =>
    rw [valueListElem]
    exact Steady.ite (Steady.throw.bind fun _ => valueTreeNode_steady node) (valueTreeNode_steady node)
  termination_by structural elem

end

end Steady

section History
variable (t : TypeTable ι)

/-- The state of a maker after some evaluations. -/
def evalAll (maker : Maker ι V) (trees : List Tree) (m : MakerState ι) : MakerState ι :=
  trees.foldl (fun m tree => (eval t maker tree m).2) m

/-- A new maker: its flag is down, its pools are empty, and the cache that all makers share holds nothing or an entry
that was looked up before. -/
structure Fresh (m : MakerState ι) : Prop where
  clear : m.nargError = false
  valid : t.CacheValid m
  unasked : m.asked = []

variable {t}

theorem evalAll_keeps {maker : Maker ι V} (keeps : maker.KeepsCache t) (trees : List Tree) {m : MakerState ι}
    (valid : t.CacheValid m) : t.CacheValid (evalAll t maker trees m) := by
  induction trees generalizing m with
  | nil => exact valid
  | cons tree trees ih => exact ih (eval_keeps keeps find_keeps tree valid)

end History

section Trees
variable [DecidableEq ι] (t : TypeTable ι) (strict : Bool) (vals : Values ι V)

/-- What the evaluation of the trees from the bottom up leaves of a state. -/
def valueAll (trees : List Tree) (m : MakerState ι) : MakerState ι :=
  trees.foldl (fun m tree => finalState (valueTreeNode t strict vals tree.root m)) m

/-- The tree finds the flag down or gives it nothing to skip, and the pools have room for its nodes. -/
structure Undisturbed (within : List (Request ι) → Prop) (m : MakerState ι) (tree : Tree) : Prop where
  free : m.nargError = true → ¬ strandsTreeNode t strict vals m tree.root
  room : within (finalState (valueTreeNode t strict vals tree.root m)).asked

/-- Each of the trees is undisturbed by those in front of it. -/
def AllUndisturbed (within : List (Request ι) → Prop) : List Tree → MakerState ι → Prop
  | [], _ => True
  | tree :: trees, m => Undisturbed t strict vals within m tree ∧
      AllUndisturbed within trees (finalState (valueTreeNode t strict vals tree.root m))

/-- Behind the trees the next one comes out of `y` as it comes out of the new maker `y'` if they leave it undisturbed,
and then only: it is left open whether a tree that fails and has stranded literals fails alike. -/
structure Forgets (y y' : Maker ι V) (within : List (Request ι) → Prop) (trees : List Tree) (start : MakerState ι) (next : Tree)
    (fresh : MakerState ι) : Prop where
  same : Undisturbed t strict vals within (valueAll t strict vals trees start) next →
    (eval t y next (evalAll t y trees start)).1 = (eval t y' next fresh).1
  only : ((valueAll t strict vals trees start).nargError = true →
      strandsTreeNode t strict vals (valueAll t strict vals trees start) next.root → ∃ v, (eval t y' next fresh).1 = .ok v) →
    (eval t y next (evalAll t y trees start)).1 = (eval t y' next fresh).1 →
    Undisturbed t strict vals within (valueAll t strict vals trees start) next

end Trees

section Run
variable [DecidableEq ι] {t : TypeTable ι} {strict : Bool} {maker y y' : Maker ι V} {vals : Values ι V}
variable {within within' : List (Request ι) → Prop} (implements : Implements t strict maker vals)

include implements in
theorem eval_outcome {tree : Tree} {m : MakerState ι} (free : m.nargError = true → ¬ strandsTreeNode t strict vals m tree.root) :
    eval t maker tree m =
      (outcome (valueTreeNode t strict vals tree.root m), finalState (valueTreeNode t strict vals tree.root m)) := by
  rw [eval_run implements tree free]
  cases valueTreeNode t strict vals tree.root m <;> rfl

variable (recedes : Receding within) (limited : Maker.Limited within maker y)

include implements recedes limited

/-- A step of the run: an undisturbed tree is evaluated as from the bottom up. -/
theorem eval_undisturbed {tree : Tree} {m : MakerState ι} (free : Undisturbed t strict vals within m tree) :
    eval t y tree m =
      (outcome (valueTreeNode t strict vals tree.root m), finalState (valueTreeNode t strict vals tree.root m)) := by
  have run := eval_outcome implements free.free
  rw [← run]
  refine (eval_limited recedes limited tree m).1 ?_
  rw [run]
  exact free.room

/-- And so is the whole run, and the pools have served it. -/
theorem evalAll_undisturbed {trees : List Tree} {m : MakerState ι} (free : AllUndisturbed t strict vals within trees m)
    (served : within m.asked) :
    evalAll t y trees m = valueAll t strict vals trees m ∧ within (valueAll t strict vals trees m).asked := by
  induction trees generalizing m with
  | nil => exact ⟨rfl, served⟩
  | cons tree trees ih =>
    obtain ⟨first, later⟩ := free
    obtain ⟨ran, served⟩ := ih later first.room
    refine ⟨?_, served⟩
    unfold evalAll at ran ⊢
    rw [List.foldl_cons, eval_undisturbed implements recedes limited first]
    exact ran

/-- A tree that is not undisturbed fails, for lack of room unless it strands its literals. -/
theorem eval_disturbed {tree : Tree} {m : MakerState ι} (served : within m.asked)
    (disturbed : ¬ Undisturbed t strict vals within m tree) : ∃ stop, (eval t y tree m).1 = .error stop ∧
      (stop.Broke ∨ m.nargError = true ∧ strandsTreeNode t strict vals m tree.root) := by
  obtain ⟨inside, beyond⟩ := eval_limited (t := t) recedes limited tree m
  by_cases stray : m.nargError = true ∧ strandsTreeNode t strict vals m tree.root
  · by_cases room : within (eval t maker tree m).2.asked
    · obtain ⟨stop, stopped⟩ := eval_strands implements stray.1 stray.2
      exact ⟨stop, by rw [inside room, stopped], .inr stray⟩
    · obtain ⟨stop, stopped, broke⟩ := beyond served room
      exact ⟨stop, stopped, .inl broke⟩
  · have free : m.nargError = true → ¬ strandsTreeNode t strict vals m tree.root := fun raised strands => stray ⟨raised, strands⟩
    have full : ¬ within (eval t maker tree m).2.asked := by
      rw [eval_outcome implements free]
      exact fun room => disturbed ⟨free, room⟩
    obtain ⟨stop, stopped, broke⟩ := beyond served full
    exact ⟨stop, stopped, .inl broke⟩

theorem forgets (safe : vals.Safe t strict) (limited' : Maker.Limited within' maker y') (recedes' : Receding within')
    (keeps : y.KeepsCache t) {trees : List Tree} {start fresh : MakerState ι} {next : Tree} (started : Fresh t start)
    (new : Fresh t fresh) (served : within start.asked) (free : AllUndisturbed t strict vals within trees start)
    (room : within' (finalState (valueTreeNode t strict vals next.root fresh)).asked) :
    Forgets t strict vals y y' within trees start next fresh := by
  obtain ⟨ran, served⟩ := evalAll_undisturbed implements recedes limited free served
  have first : eval t y' next fresh = _ :=
    eval_undisturbed implements recedes' limited' ⟨by rw [new.clear]; nofun, room⟩
  have valid : t.CacheValid (evalAll t y trees start) := evalAll_keeps keeps trees started.valid
  rw [ran] at valid
  constructor
  · intro undisturbed
    rw [ran, first, eval_undisturbed implements recedes limited undisturbed]
    exact (valueTreeNode_steady next.root).same valid new.valid
  · intro returns same
    by_contra disturbed
    rw [ran] at same
    obtain ⟨stop, stopped, why⟩ := eval_disturbed implements recedes limited served disturbed
    rw [stopped] at same
    rcases why with ⟨what, rfl⟩ | ⟨raised, strands⟩
    · rw [first] at same
      cases valued : valueTreeNode t strict vals next.root fresh with
      | ok v m =>
        rw [valued] at same
        cases same
      | error e m =>
        rw [valued] at same
        cases same
        exact valueTreeNode_error safe valued
    · obtain ⟨v, returned⟩ := returns raised strands
      rw [returned] at same
      cases same

end Run

section Theorem
variable [DecidableEq ι] (t : TypeTable ι) (strict : Bool)

/-- A run that disturbs none of its trees leaves the next one what it is for a new maker, whose pools have room for it,
just when it does not disturb that one either. -/
theorem history_forgotten_iff (classes : Classes ι) (pools pools' : Pools) (trees : List Tree) (next : Tree)
    {start fresh : MakerState ι} (started : Fresh t start) (new : Fresh t fresh) :
    (AllUndisturbed t strict typeValues (fun _ => True) trees start →
      Forgets t strict typeValues (TypeMaker t strict) (TypeMaker t strict) (fun _ => True) trees start next fresh) ∧
    (AllUndisturbed t strict (nodeValues t) (Serve classes pools) trees start →
      Serve classes pools' (finalState (valueTreeNode t strict (nodeValues t) next.root fresh)).asked →
      Forgets t strict (nodeValues t) (NodeMaker.on t strict (demand classes pools))
        (NodeMaker.on t strict (demand classes pools')) (Serve classes pools) trees start next fresh) := by
  constructor
  · intro free
    have limited : Maker.Limited (fun _ => True) (TypeMaker t strict) (TypeMaker t strict) := typeMaker_limited
    exact forgets (typeMaker_implements t strict) (fun _ _ => id) limited typeValues_safe limited (fun _ _ => id)
      typeMaker_keepsCache started new trivial free trivial
  · intro free room
    exact forgets (nodeMaker_implements t strict) serve_recedes nodeMaker_limited nodeValues_safe nodeMaker_limited
      serve_recedes (nodeMakerOn_keepsCache demand_keepsCache) started new (by rw [started.unasked]; rfl) free room

end Theorem

/-- `A` and `D` of the abc library. -/
def letterTable : TypeTable Bool where
  types := [false, true]
  complete := mem_false_true
  astType
    | false => ⟨"A".toList, none, []⟩
    | true => ⟨"D".toList, none, [⟨"c".toList, .cptr .charPtr⟩]⟩
  newFuncs := [⟨"A".toList, false⟩, ⟨"D".toList, true⟩]

theorem letterTable_fresh : Fresh letterTable {} := ⟨rfl, fun _ cached => (nomatch cached), rfl⟩

def letterA : Tree := ⟨.mk ⟨"A".toList⟩ (.listArgs [])⟩
def letterAx : Tree := ⟨.mk ⟨"A".toList⟩ (.literalArgs ⟨['x']⟩)⟩
def letterDx : Tree := ⟨.mk ⟨"D".toList⟩ (.literalArgs ⟨['x']⟩)⟩

/-- After `A('x')`, which fails, `A()` is as new and `D('x')` is not. With pools for one node `A()` is not built twice. -/
theorem history_forgotten_letters :
    let types := TypeMaker letterTable true
    let nodes := NodeMaker.on letterTable true
      (demand ⟨fun _ => 24, fun _ => ⟨3⟩⟩ ⟨⟨1, 64, 64, 64, [], false⟩, ⟨1, 64, 64, 64, [], false⟩⟩)
    (eval letterTable types letterA (evalAll letterTable types [letterAx] {})).1 = (eval letterTable types letterA {}).1 ∧
      (eval letterTable types letterDx (evalAll letterTable types [letterAx] {})).1 ≠ (eval letterTable types letterDx {}).1 ∧
      (eval letterTable nodes letterA (evalAll letterTable nodes [letterA] {})).1 ≠ (eval letterTable nodes letterA {}).1 := by
  intro types nodes
  have after (trees : List Tree) (next : Tree) := history_forgotten_iff letterTable true ⟨fun _ => 24, fun _ => ⟨3⟩⟩
    ⟨⟨1, 64, 64, 64, [], false⟩, ⟨1, 64, 64, 64, [], false⟩⟩ ⟨⟨1, 64, 64, 64, [], false⟩, ⟨1, 64, 64, 64, [], false⟩⟩
    trees next letterTable_fresh letterTable_fresh
  have literal : AllUndisturbed letterTable true typeValues (fun _ => True) [letterAx] {} := ⟨⟨nofun, trivial⟩, trivial⟩
  refine ⟨((after [letterAx] letterA).1 literal).same ⟨?_, trivial⟩, fun same => ?_, fun same => ?_⟩
  · rintro - (inner | ⟨-, some, -⟩)
    · exact inner
    · exact some rfl
  · have free := ((after [letterAx] letterDx).1 literal).only (fun _ _ => ⟨.node true, rfl⟩) same
    exact free.free rfl (.inr ⟨trivial, nofun, .node true, _, rfl⟩)
  · have room := (((after [letterA] letterA).2 ⟨⟨nofun, by decide⟩, trivial⟩ (by decide)).only nofun same).room
    revert room
    decide

/-- `A('x')` and then `D('x')`. -/
theorem history_not_forgotten : ¬ ∀ (trees : List Tree) (next : Tree),
    (eval letterTable (TypeMaker letterTable true) next (evalAll letterTable (TypeMaker letterTable true) trees {})).1 =
      (eval letterTable (TypeMaker letterTable true) next {}).1 := by
  intro same
  have same := same [letterAx] letterDx
  revert same
  decide

end CxxpyTree.Obj
