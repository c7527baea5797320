import CxxpyTree.Lib.Quota
import CxxpyTree.MakerInvariant
import CxxpyTree.ExtPrinter
import CxxpyTree.PoolRuns

/-! The node maker on the pools of its `ast`. It does what the maker with room for every tree does as long as the pools
serve what that maker asks for, and ends with `bad_alloc` where they do not. -/

namespace CxxpyTree.Obj
open Machine

variable {ι V α : Type}

/-- `sizeof` and `alignof` of the classes of a library, which the compiler chooses. -/
structure Classes (ι : Type) where
  size : ι → UInt64
  align : ι → Alignment

def allocated (nbytes align : Nat) (pool : PoolAllocator) : Except AllocError PoolAllocator :=
  match PoolAllocator.allocate nbytes align pool with
  | .ok _ pool => .ok pool
  | .error err _ => .error err

/-- The pools of a new `AST` of an extension library. -/
def newPools (nodeHeap rawHeap : Heap) (nodeObjs nodeSz rawObjs rawSz : UInt64) : Option Pools := do
  let nodes ← PoolAllocator.new nodeHeap nodeObjs nodeSz
  let raw ← PoolAllocator.new rawHeap rawObjs rawSz
  return { nodes, raw }

section Pools
variable (classes : Classes ι) (pools : Pools)

/-- The pools after a request: `raw_alloc` holds the strings and the lists, `node_alloc` the nodes. -/
def Request.serve (pools : Pools) : Request ι → Except AllocError Pools
  | .chars str => do return { pools with raw := ← allocated ((1 + str.length) % wordSize) 1 pools.raw }
  | .ptrs n => do return { pools with raw := ← allocated (PoolAllocator.ptrSize * n % wordSize) PoolAllocator.ptrSize pools.raw }
  | .node type => do return { pools with nodes := ← allocated (classes.size type).toNat (classes.align type).value pools.nodes }

def serveAll (reqs : List (Request ι)) : Except AllocError Pools := reqs.foldlM (Request.serve classes) pools

/-- The pools serve the requests in this order. -/
def Serve (reqs : List (Request ι)) : Prop := (serveAll classes pools reqs).toBool

instance (reqs : List (Request ι)) : Decidable (Serve classes pools reqs) := inferInstanceAs (Decidable (_ = true))

/-- `allocate` of the pools of `ast`, which are as new pools that have served what was asked for so far. -/
def demand (req : Request ι) : MakerM ι Unit := fun m =>
  match serveAll classes pools (m.asked ++ [req]) with
  | .ok _ => grant req m
  | .error err => .error (.alloc err) m

variable {classes pools}

theorem serve_recedes : Receding (Serve classes pools) := by
  intro front later served
  unfold Serve serveAll at served ⊢
  rw [List.foldlM_append] at served
  cases first : front.foldlM (Request.serve classes) pools with
  | ok _ => rfl
  | error err =>
    rw [first] at served
    cases served

end Pools

/-- The pools were exhausted. -/
def Stop.Broke (stop : Stop ι) : Prop := ∃ what, stop = .alloc (.badAlloc what)

section Serving
variable {classes : Classes ι} {pools : Pools}

theorem allocated_error {nbytes align : Nat} {pool : PoolAllocator} {err : AllocError}
    (failed : allocated nbytes align pool = .error err) : ∃ what, err = .badAlloc what := by
  unfold allocated at failed
  split at failed
  next => cases failed
  next ran =>
    cases failed
    exact allocate_error ran

theorem serve_error {pools : Pools} {req : Request ι} {err : AllocError} (failed : req.serve classes pools = .error err) :
    ∃ what, err = .badAlloc what := by
  cases req with
  | chars str | ptrs n | node type =>
    rcases except_bind_eq_error.mp failed with full | ⟨_, _, done⟩
    · exact allocated_error full
    · cases done

theorem serveAll_error {reqs : List (Request ι)} {err : AllocError} (failed : serveAll classes pools reqs = .error err) :
    ∃ what, err = .badAlloc what := by
  induction reqs generalizing pools with
  | nil => cases failed
  | cons req reqs ih =>
    unfold serveAll at failed
    rw [List.foldlM_cons] at failed
    rcases except_bind_eq_error.mp failed with first | ⟨pools', _, later⟩
    · exact serve_error first
    · exact ih later

/-- What stays within the limit on the requests is done as without, and the rest ends with `bad_alloc`. -/
abbrev MakerLimited (within : List (Request ι) → Prop) (x y : EvalM ι V α) : Prop :=
  Limited (fun s => s.maker.asked) within Stop.Broke x y

def HasAsked (reqs : List (Request ι)) (m : MakerState ι) : Prop := m.asked = reqs

theorem MakerLimited.quiet {within : List (Request ι) → Prop} {x : EvalM ι V α} (still : ∀ reqs, KeepsMaker (HasAsked reqs) x) :
    MakerLimited within x x := Limited.quiet still

theorem grant_limited (req : Request ι) :
    Limited MakerState.asked (Serve classes pools) Stop.Broke (grant req) (demand classes pools req) where
  grows m := List.prefix_append m.asked [req]
  inside m served := by
    change Serve classes pools (m.asked ++ [req]) at served
    unfold Serve at served
    unfold demand
    cases all : serveAll classes pools (m.asked ++ [req]) with
    | ok _ => rfl
    | error err =>
      rw [all] at served
      cases served
  beyond m _ full := by
    change ¬ Serve classes pools (m.asked ++ [req]) at full
    unfold Serve at full
    unfold demand
    cases all : serveAll classes pools (m.asked ++ [req]) with
    | ok _ =>
      rw [all] at full
      exact absurd rfl full
    | error err =>
      obtain ⟨what, rfl⟩ := serveAll_error all
      exact ⟨.alloc (.badAlloc what), m, rfl, what, rfl⟩

theorem forM_limited : ∀ reqs : List (Request ι),
    Limited MakerState.asked (Serve classes pools) Stop.Broke (reqs.forM grant) (reqs.forM (demand classes pools))
  | [] => .quiet fun _ => .pure
  | req :: reqs => (grant_limited req).bind serve_recedes fun _ => forM_limited reqs

end Serving

section Scopes

/-- A step that leaves the stack as it is, also where it stops. -/
abbrev Still (stack : List (StackObj V)) (x : EvalM ι V α) : Prop := Keeps (fun s => s.stack = stack) x

variable {stack : List (StackObj V)} {t : TypeTable ι} {type : ι}

theorem withMaker_still {step : MakerM ι α} : Still stack (withMaker step) := by
  intro s same
  have stepped := withMaker_run step s.stack (m := s.maker)
  unfold wp
  rw [stepped]
  cases step s.maker <;> exact same

theorem check_still {answer : Except (Stop ι) α} : Still stack (check answer) := by
  cases answer with
  | ok a => exact Keeps.pure
  | error stop => exact Keeps.throw

theorem stackAt_still {k : Nat} : Still stack (stackAt (ι := ι) k) := by
  refine Keeps.get.bind fun s => ?_
  cases s.stack[k]? with
  | some obj => exact Keeps.pure
  | none => exact Keeps.throw

theorem newNodeArgs_still {stack : List (StackObj (ObjValue ι))} : ∀ {args : List (ArgDef ι)} {k : Nat},
    Still stack (newNodeArgs t type args k)
  | [], _ => Keeps.pure
  | _ :: _, _ => stackAt_still.bind fun _ => check_still.bind fun _ => newNodeArgs_still.bind fun _ => Keeps.pure

theorem newListElems_still {stack : List (StackObj (ObjValue ι))} : ∀ {k : Nat}, Still stack (newListElems k)
  | 0 => Keeps.pure
  | _ + 1 => stackAt_still.bind fun _ => check_still.bind fun _ => newListElems_still.bind fun _ => Keeps.pure

theorem stackAt_covers {k : Nat} {s s' : EvalState ι V} {obj : StackObj V} (found : stackAt k s = .ok obj s') :
    s' = s ∧ k < s.stack.length := by
  unfold stackAt at found
  rw [get_bind] at found
  cases there : s.stack[k]? with
  | some obj =>
    rw [there] at found
    cases found
    exact ⟨rfl, (List.getElem?_eq_some_iff.mp there).1⟩
  | none =>
    rw [there] at found
    cases found

theorem popArgs_covered {n : Nat} {s : EvalState ι V} (covered : n ≤ s.stack.length) :
    ∃ s', popArgs n s = .ok () s' := by
  unfold popArgs
  rw [get_bind]
  split
  next =>
    split
    next some =>
      unfold pop
      rw [get_bind, if_neg (by omega)]
      exact ⟨_, rfl⟩
    next => exact ⟨_, rfl⟩
  next => exact ⟨_, rfl⟩

variable [DecidableEq ι] {strict : Bool} {objType : V → ObjType ι}

theorem checkNodeArgsLoop_still {args : List (ArgDef ι)} {k : Nat} :
    Still stack (checkNodeArgsLoop t strict objType type args k) := by
  induction args generalizing k with
  | nil => exact Keeps.pure
  | cons arg args ih => exact stackAt_still.bind fun _ => check_still.bind fun _ => ih

theorem checkListArgsLoop_still {n k : Nat} : Still stack (checkListArgsLoop t strict objType type n k) := by
  induction k with
  | zero => exact Keeps.pure
  | succ k ih => exact stackAt_still.bind fun _ => check_still.bind fun _ => ih

/-- Arguments that have been checked lie on the stack. -/
theorem checkNodeArgs_covers {node : TreeNode} {s s' : EvalState ι V}
    (passed : checkNodeArgs t strict objType type node s = .ok () s') : narg t type ≤ s'.stack.length := by
  obtain ⟨name, args⟩ := node
  cases args with
  | literalArgs literal =>
    simp only [checkNodeArgs] at passed
    split at passed
    next => cases passed
    next one =>
      rw [not_not] at one
      obtain ⟨arg, declared⟩ := List.length_eq_one_iff.mp one
      rw [declared] at passed
      obtain ⟨obj, s₁, found, passed⟩ := bind_eq_ok.mp passed
      obtain ⟨read, inside⟩ := stackAt_covers found
      rw [read] at passed
      have kept : Still s.stack (check (checkNodeArgValue t strict type arg 1 (objType obj.value))) := check_still
      have same : s'.stack = s.stack := (kept s rfl).of_ok passed
      rw [same, one]
      exact inside
  | listArgs list =>
    simp only [checkNodeArgs] at passed
    split at passed
    next => cases passed
    next =>
      have kept : Still s.stack (checkNodeArgsLoop t strict objType type (t.astType type).args (narg t type - 1)) :=
        checkNodeArgsLoop_still
      have same : s'.stack = s.stack := (kept s rfl).of_ok passed
      rw [same]
      unfold narg at passed ⊢
      cases declared : (t.astType type).args with
      | nil => exact Nat.zero_le _
      | cons arg args =>
        rw [declared] at passed
        obtain ⟨obj, s₁, found, passed⟩ := bind_eq_ok.mp passed
        have inside := (stackAt_covers found).2
        simp only [List.length_cons, Nat.add_sub_cancel] at inside ⊢
        exact inside

theorem checkListArgs_covers {base : NodeName} {elems : List ListElem} {s s' : EvalState ι V}
    (passed : checkListArgs t strict objType type (.mk base elems) s = .ok () s') : elems.length ≤ s'.stack.length := by
  rw [checkListArgs] at passed
  have kept : Still s.stack (checkListArgsLoop t strict objType type elems.length elems.length) := checkListArgsLoop_still
  have same : s'.stack = s.stack := (kept s rfl).of_ok passed
  rw [same]
  cases elems with
  | nil => exact Nat.zero_le _
  | cons elem elems =>
    rw [List.length_cons, checkListArgsLoop] at passed
    obtain ⟨obj, s₁, found, passed⟩ := bind_eq_ok.mp passed
    exact (stackAt_covers found).2

end Scopes

section Makers
variable {within : List (Request ι) → Prop}

theorem withMaker_limited {x y : MakerM ι α} (steps : Limited MakerState.asked within Stop.Broke x y) :
    MakerLimited (V := V) within (withMaker x) (withMaker y) := by
  have run (z : MakerM ι α) (s : EvalState ι V) : withMaker z s = _ := withMaker_run z s.stack (m := s.maker)
  have asked (s : EvalState ι V) : (finalState (withMaker x s)).maker.asked = (finalState (x s.maker)).asked := by
    rw [run]
    cases x s.maker <;> rfl
  constructor
  · intro s
    rw [asked]
    exact steps.grows s.maker
  · intro s served
    rw [asked] at served
    rw [run, run, steps.inside s.maker served]
  · intro s held full
    rw [asked] at full
    obtain ⟨e, m', stopped, broke⟩ := steps.beyond s.maker held full
    exact ⟨e, { s with maker := m' }, by rw [run, stopped], broke⟩

/-- A check object around a body that leaves the stack to it. -/
theorem checked_limited {init : EvalM ι V Unit} {n : Nat} {x y : EvalM ι V α}
    (quietly : ∀ reqs, KeepsMaker (HasAsked reqs) init)
    (covers : ∀ {s s'}, init s = .ok () s' → n ≤ s'.stack.length) (still : ∀ stack, Still stack y)
    (body : MakerLimited within x y) : MakerLimited within (checked init n x) (checked init n y) := by
  have pops (reqs : List (Request ι)) : KeepsMaker (V := V) (HasAsked reqs) (popArgs n) := popArgs_keeps fun _ _ same => same
  refine body.destructing quietly pops fun s s' e s'' passed stopped _ => ?_
  have same : s''.stack = s'.stack := (still s'.stack s' rfl).of_error stopped
  exact popArgs_covered (same ▸ covers passed)

/-- The second maker does what the first does as long as it stays within the limit. -/
structure Maker.Limited (within : List (Request ι) → Prop) (x y : Maker ι V) : Prop where
  objType : y.objType = x.objType
  makeCptr : y.makeCptr = x.makeCptr
  node : ∀ type node, MakerLimited within (x.newNode type node) (y.newNode type node)
  list : ∀ type list, MakerLimited within (x.newList type list) (y.newList type list)

variable [DecidableEq ι] {t : TypeTable ι} {strict : Bool}

/-- The type maker asks for nothing. -/
theorem typeMaker_limited : Maker.Limited within (TypeMaker t strict) (TypeMaker t strict) where
  objType := rfl
  makeCptr := rfl
  node type node := MakerLimited.quiet fun _ => (typeMaker_keeps fun _ _ same => same).node type node
  list type list := MakerLimited.quiet fun _ => (typeMaker_keeps fun _ _ same => same).list type list

theorem nodeMaker_limited {classes : Classes ι} {pools : Pools} :
    Maker.Limited (Serve classes pools) (NodeMaker t strict) (NodeMaker.on t strict (demand classes pools)) where
  objType := rfl
  makeCptr := rfl
  node type node := by
    refine checked_limited (fun reqs => checkNodeArgs_keeps fun _ _ same => same) checkNodeArgs_covers
      (fun stack => newNodeArgs_still.bind fun _ => withMaker_still) ?_
    refine Limited.bind serve_recedes (MakerLimited.quiet fun reqs => newNodeArgs_keeps) fun fields => withMaker_limited ?_
    refine Limited.bind serve_recedes (forM_limited _) fun _ => .quiet fun reqs => Keeps.bind ?_ fun _ => Keeps.pure
    exact Keeps.modify fun m same => same
  list type list := by
    obtain ⟨base, elems⟩ := list
    refine checked_limited (fun reqs => checkListArgs_keeps) checkListArgs_covers
      (fun stack => withMaker_still.bind fun _ => newListElems_still.bind fun _ => .pure) ?_
    exact Limited.bind serve_recedes (withMaker_limited (forM_limited _)) fun _ => MakerLimited.quiet fun reqs =>
      newListElems_keeps.bind fun _ => .pure

end Makers

section Visits
variable {within : List (Request ι) → Prop} {t : TypeTable ι} {x y : Maker ι V}

theorem find_quiet (name : CStr) (reqs : List (Request ι)) : Keeps (HasAsked reqs) (t.find name) := by
  intro m same
  unfold wp
  rw [find_run]
  cases m.cache.filter _ with
  | some entry => exact same
  | none => cases t.lookup name <;> exact same

variable (recedes : Receding within) (limited : Maker.Limited within x y)
include recedes limited

theorem makeNode_limited {node : TreeNode} : MakerLimited within (makeNode t x node) (makeNode t y node) := by
  obtain ⟨name, args⟩ := node
  exact Limited.bind recedes (MakerLimited.quiet fun reqs => withMaker_keeps (find_quiet name.ident reqs)) fun entry =>
    limited.node entry.type _

theorem makeList_limited {list : NodeList} : MakerLimited within (makeList t x list) (makeList t y list) := by
  obtain ⟨base, elems⟩ := list
  exact Limited.bind recedes (MakerLimited.quiet fun reqs => withMaker_keeps (find_quiet base.ident reqs)) fun entry =>
    limited.list entry.type _

omit recedes in
theorem visitLiteral_limited {arg : Literal} : MakerLimited within (visitLiteral x arg) (visitLiteral y arg) := by
  unfold visitLiteral
  rw [limited.makeCptr]
  exact MakerLimited.quiet fun _ => push_keeps

set_option linter.unusedSectionVars false in
mutual

theorem visitTreeNode_limited (node : TreeNode) :
    MakerLimited within (visitTreeNode t x node) (visitTreeNode t y node) := by
  cases node with
  | mk name args =>
    rw [visitTreeNode, visitTreeNode]
    exact (visitNodeArgs_limited args).bind recedes fun _ => (makeNode_limited recedes limited).bind recedes fun _ =>
      MakerLimited.quiet fun _ => push_keeps
  termination_by structural node

theorem visitNodeArgs_limited (args : NodeArgs) :
    MakerLimited within (visitNodeArgs t x args) (visitNodeArgs t y args) := by
  cases args with
  | listArgs list =>
    rw [visitNodeArgs, visitNodeArgs]
    exact visitNodeArgList_limited list
  | literalArgs literal =>
    rw [visitNodeArgs, visitNodeArgs]
    exact visitLiteral_limited limited
  termination_by structural args

theorem visitNodeArgList_limited (list : List NodeArg) :
    MakerLimited within (visitNodeArgList t x list) (visitNodeArgList t y list) := by
  cases list with
  | nil =>
    rw [visitNodeArgList, visitNodeArgList]
    exact .quiet fun _ => Keeps.pure
  | cons arg list =>
    rw [visitNodeArgList, visitNodeArgList]
    exact (visitNodeArg_limited arg).bind recedes fun _ => visitNodeArgList_limited list
  termination_by structural list

theorem visitNodeArg_limited (arg : NodeArg) :
    MakerLimited within (visitNodeArg t x arg) (visitNodeArg t y arg) := by
  cases arg with
  | mk name value =>
    rw [visitNodeArg, visitNodeArg]
    exact (visitArgValue_limited value).bind recedes fun _ => MakerLimited.quiet fun _ => visitArgName_keeps
  termination_by structural arg

theorem visitArgValue_limited (arg : ArgValue) :
    MakerLimited within (visitArgValue t x arg) (visitArgValue t y arg) := by
  cases arg with
  | nodeValue node =>
    rw [visitArgValue, visitArgValue]
    exact visitTreeNode_limited node
  | listValue list =>
    rw [visitArgValue, visitArgValue]
    exact visitNodeList_limited list
  | literalValue literal =>
    rw [visitArgValue, visitArgValue]
    exact visitLiteral_limited limited
  termination_by structural arg

theorem visitNodeList_limited (list : NodeList) :
    MakerLimited within (visitNodeList t x list) (visitNodeList t y list) := by
  cases list with
  | mk base elems =>
    rw [visitNodeList, visitNodeList]
    exact (visitListElems_limited elems 0).bind recedes fun _ => (makeList_limited recedes limited).bind recedes fun _ =>
      MakerLimited.quiet fun _ => push_keeps
  termination_by structural list

theorem visitListElems_limited (elems : List ListElem) (k : Nat) :
    MakerLimited within (visitListElems t x elems k) (visitListElems t y elems k) := by
  cases elems with
  | nil =>
    rw [visitListElems, visitListElems]
    exact .quiet fun _ => Keeps.pure
  | cons elem elems =>
    rw [visitListElems, visitListElems]
    exact (visitListElem_limited elem k).bind recedes fun _ => visitListElems_limited elems (k + 1)
  termination_by structural elems

theorem visitListElem_limited (elem : ListElem) (k : Nat) :
    MakerLimited within (visitListElem t x elem k) (visitListElem t y elem k) := by
  cases elem with
  | mk index node =>
    rw [visitListElem, visitListElem]
    have visited := visitTreeNode_limited node
    exact .ite (.bind recedes (.quiet fun _ => Keeps.throw) fun _ => visited) visited
  termination_by structural elem

end

theorem evalTree_limited (tree : Tree) : MakerLimited within (evalTree t x tree) (evalTree t y tree) := by
  refine (visitTreeNode_limited recedes limited tree.root).bind recedes fun _ => ?_
  rw [limited.objType]
  refine MakerLimited.quiet fun reqs => Keeps.get.bind fun s => ?_
  -- The same calls follow on either side of the check.
  refine Keeps.ite (Keeps.throw.bind fun _ => ?_) ?_
  all_goals
    refine top_keeps.bind fun obj => ?_
    cases x.objType obj.value with
    | node _ => exact Keeps.pure
    | list _ => exact Keeps.throw
    | cptr _ => exact Keeps.throw

/-- An evaluation within the limit is as it is without, another one ends with `bad_alloc`. -/
theorem eval_limited (tree : Tree) (m : MakerState ι) :
    (within (eval t x tree m).2.asked → eval t y tree m = eval t x tree m) ∧
    (within m.asked → ¬ within (eval t x tree m).2.asked →
      ∃ stop, (eval t y tree m).1 = .error stop ∧ stop.Broke) := by
  have steps : MakerLimited within (evalTree t x tree) (evalTree t y tree) := evalTree_limited recedes limited tree
  have same : (eval t x tree m).2 = (finalState (evalTree t x tree ⟨[], m⟩)).maker := by
    unfold eval
    cases evalTree t x tree ⟨[], m⟩ <;> rfl
  rw [same]
  constructor
  · intro served
    unfold eval
    rw [steps.inside ⟨[], m⟩ served]
  · intro held full
    obtain ⟨e, s', stopped, broke⟩ := steps.beyond ⟨[], m⟩ held full
    exact ⟨e, by rw [eval, stopped], broke⟩

end Visits

end CxxpyTree.Obj
