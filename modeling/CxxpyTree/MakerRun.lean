import CxxpyTree.ValueChecks

/-! The makers on the stack. The values of the arguments lie on it in reverse, and each loop over
them is followed from its first argument on, the ones before it counted among what lies below. -/

namespace CxxpyTree.Obj
open Machine

variable {ι : Type}

section Stack
variable {V : Type} {stack below : List (StackObj V)} {m : MakerState ι}

theorem stackAt_run {k : Nat} {obj : StackObj V} (found : stack[k]? = some obj) :
    stackAt k (⟨stack, m⟩ : EvalState ι V) = .ok obj ⟨stack, m⟩ := by
  unfold stackAt
  rw [get_bind]
  simp only [found]
  rfl

/-- The first of some arguments lies under the others. -/
theorem first_under (obj : StackObj V) (objs below : List (StackObj V)) :
    ((obj :: objs).reverse ++ below)[objs.length]? = some obj := by
  simp

theorem popArgs_run (objs : List (StackObj V)) :
    popArgs objs.length (⟨objs.reverse ++ below, m⟩ : EvalState ι V) =
      .ok () ⟨if m.nargError then objs.reverse ++ below else below, { m with nargError := false }⟩ := by
  unfold popArgs
  rw [get_bind]
  cases flag : m.nargError with
  | true => rfl
  | false =>
    have same : { m with nargError := false } = m := by rw [← flag]
    cases objs with
    | nil => rw [same]; rfl
    | cons obj objs =>
      simp only [Bool.not_false, if_true, List.length_cons, Nat.zero_lt_succ, gt_iff_lt]
      unfold pop
      rw [get_bind, if_neg (by simp)]
      have dropped : ((obj :: objs).reverse ++ below).drop (objs.length + 1) = below := List.drop_left' (by simp)
      change EStateM.Result.ok () (EvalState.mk _ _) = _
      rw [same, dropped]
      rfl

end Stack

section Loops
variable [DecidableEq ι] (t : TypeTable ι) (strict : Bool) {V : Type} (objType : V → ObjType ι)
variable (type : ι) (m : MakerState ι)

theorem checkNodeArgsLoop_run : ∀ (args : List (ArgDef ι)) (objs below : List (StackObj V)) (k : Nat),
    args.length = objs.length → k + args.length = narg t type + 1 →
    checkNodeArgsLoop t strict objType type args (args.length - 1) ⟨objs.reverse ++ below, m⟩ =
      check (checkArgs t strict objType type k args objs) ⟨objs.reverse ++ below, m⟩
  | [], [], _, _, _, _ => rfl
  | arg :: args, obj :: objs, below, k, same, total => by
    have rest := checkNodeArgsLoop_run args objs (obj :: below) (k + 1) (by simpa using same)
      (by simp only [List.length_cons] at total; omega)
    simp only [List.length_cons, Nat.add_right_cancel_iff] at same total
    unfold checkNodeArgsLoop checkArgs
    rw [List.length_cons, Nat.add_sub_cancel, same, bind_of_ok (stackAt_run (first_under obj objs below)),
      show narg t type - objs.length = k by omega]
    cases answer : checkNodeArg t strict objType type arg k obj with
    | error stop => exact bind_of_error (check_run _ _)
    | ok _ =>
      rw [bind_of_ok (check_run _ _), ← same, List.reverse_cons, List.append_assoc, List.singleton_append]
      exact rest

omit [DecidableEq ι] in
theorem newNodeArgs_run : ∀ (args : List (ArgDef ι)) (objs below : List (StackObj (ObjValue ι))) (k : Nat),
    args.length = objs.length → k + args.length = narg t type →
    newNodeArgs t type args k ⟨objs.reverse ++ below, m⟩ =
      check (argFields args (objs.map StackObj.value)) ⟨objs.reverse ++ below, m⟩
  | [], [], _, _, _, _ => rfl
  | arg :: args, obj :: objs, below, k, same, total => by
    have rest := newNodeArgs_run args objs (obj :: below) (k + 1) (by simpa using same)
      (by simp only [List.length_cons] at total; omega)
    simp only [List.length_cons, Nat.add_right_cancel_iff] at same total
    unfold newNodeArgs
    rw [List.map_cons, argFields, show narg t type - k - 1 = objs.length by omega,
      bind_of_ok (stackAt_run (first_under obj objs below))]
    cases answer : argField arg.argType obj.value with
    | error stop => exact bind_of_error (check_run _ _)
    | ok field =>
      rw [bind_of_ok (check_run _ _)]
      rw [List.reverse_cons, List.append_assoc, List.singleton_append]
      cases more : argFields args (objs.map StackObj.value) with
      | error stop => exact bind_of_error (rest.trans (by rw [more]; rfl))
      | ok fields => exact bind_of_ok (rest.trans (by rw [more]; rfl))

theorem checkListArgsLoop_run (n : Nat) : ∀ (objs below : List (StackObj V)), objs.length ≤ n →
    checkListArgsLoop t strict objType type n objs.length ⟨objs.reverse ++ below, m⟩ =
      check (checkElems t strict objType type (n - objs.length) (objs.map StackObj.value)) ⟨objs.reverse ++ below, m⟩
  | [], _, _ => rfl
  | obj :: objs, below, fits => by
    simp only [List.length_cons] at fits
    have rest := checkListArgsLoop_run n objs (obj :: below) (by omega)
    rw [List.length_cons, checkListArgsLoop, List.map_cons, checkElems,
      bind_of_ok (stackAt_run (first_under obj objs below))]
    cases answer : checkListArg t strict type (n - (objs.length + 1)) (objType obj.value) with
    | error stop => exact bind_of_error (check_run _ _)
    | ok _ =>
      rw [bind_of_ok (check_run _ _), List.reverse_cons, List.append_assoc, List.singleton_append,
        show n - (objs.length + 1) + 1 = n - objs.length by omega]
      exact rest

omit [DecidableEq ι] in
theorem newListElems_run : ∀ (objs below : List (StackObj (ObjValue ι))),
    newListElems objs.length ⟨objs.reverse ++ below, m⟩ =
      check (listElems (objs.map StackObj.value)) ⟨objs.reverse ++ below, m⟩
  | [], _ => rfl
  | obj :: objs, below => by
    have rest := newListElems_run objs (obj :: below)
    rw [List.length_cons, newListElems, List.map_cons, listElems,
      bind_of_ok (stackAt_run (first_under obj objs below))]
    cases answer : listElemCast obj.value with
    | error stop => exact bind_of_error (check_run _ _)
    | ok elem =>
      rw [bind_of_ok (check_run _ _), List.reverse_cons, List.append_assoc, List.singleton_append]
      cases more : listElems (objs.map StackObj.value) with
      | error stop => exact bind_of_error (rest.trans (by rw [more]; rfl))
      | ok elems => exact bind_of_ok (rest.trans (by rw [more]; rfl))

end Loops

section Checked
variable {V α : Type} {m m' : MakerState ι} {objs below : List (StackObj V)}

/-- What is left of the arguments when the flag says that they were not counted: all of them. -/
def leftover (m : MakerState ι) (objs below : List (StackObj V)) : List (StackObj V) :=
  if m.nargError then objs.reverse ++ below else below

theorem withMaker_run (step : MakerM ι α) (stack : List (StackObj V)) :
    withMaker step ⟨stack, m⟩ = match step m with
      | .ok a m' => .ok a ⟨stack, m'⟩
      | .error stop m' => .error stop ⟨stack, m'⟩ := by
  unfold withMaker
  cases step m <;> rfl

/-- The body of a check is reached with the stack and the state of before, and left through the pop. -/
theorem checked_run (n : Nat) (answer : MakerM ι Unit) (body : EvalM ι V α) (init : EvalM ι V Unit)
    (initial : init ⟨objs.reverse ++ below, m⟩ = withMaker answer ⟨objs.reverse ++ below, m⟩) :
    checked init n body ⟨objs.reverse ++ below, m⟩ =
      match answer m with
      | .error e m' => .error e ⟨objs.reverse ++ below, m'⟩
      | .ok _ m' => destructing .terminated (popArgs n) body ⟨objs.reverse ++ below, m'⟩ := by
  unfold checked
  rw [withMaker_run] at initial
  cases held : answer m with
  | error e m' => rw [held] at initial; exact bind_of_error initial
  | ok _ m' => rw [held] at initial; exact bind_of_ok initial

/-- A check with nothing to do inside it, before the value it was made for. -/
theorem checked_pure {init : EvalM ι V Unit} {n : Nat} {a : α} {s : EvalState ι V} :
    (checked init n (pure ()) >>= fun _ => pure a) s = checked init n (pure a) s := by
  unfold checked
  cases started : init s with
  | error e s' =>
    rw [bind_of_error started]
    exact bind_of_error (bind_of_error started)
  | ok _ s' =>
    rw [bind_of_ok started, destructing_pure]
    have passed : (init >>= fun _ => destructing .terminated (popArgs n) (pure ())) s = _ :=
      (bind_of_ok started).trans destructing_pure
    cases popped : popArgs n s' with
    | ok _ after => rw [popped] at passed; exact bind_of_ok passed
    | error e after => rw [popped] at passed; exact bind_of_error passed

theorem destructing_run_ok {body : EvalM ι V α} {a : α}
    (returns : body ⟨objs.reverse ++ below, m⟩ = .ok a ⟨objs.reverse ++ below, m'⟩) :
    destructing .terminated (popArgs objs.length) body ⟨objs.reverse ++ below, m⟩ =
      .ok a ⟨leftover m' objs below, { m' with nargError := false }⟩ := by
  unfold destructing
  rw [returns]
  dsimp only
  rw [popArgs_run]
  rfl

theorem destructing_run_error {body : EvalM ι V α} {e : Stop ι}
    (stops : body ⟨objs.reverse ++ below, m⟩ = .error e ⟨objs.reverse ++ below, m'⟩) :
    destructing .terminated (popArgs objs.length) body ⟨objs.reverse ++ below, m⟩ =
      .error e ⟨leftover m' objs below, { m' with nargError := false }⟩ := by
  unfold destructing
  rw [stops]
  dsimp only
  rw [popArgs_run]
  rfl

end Checked

section Makers
variable [DecidableEq ι] (t : TypeTable ι) (strict : Bool) {V : Type}

theorem checkNodeArgs_run (objType : V → ObjType ι) (type : ι) (name : NodeName) (args : NodeArgs)
    (objs below : List (StackObj V)) (m : MakerState ι) (count : objs.length = argCount args) :
    checkNodeArgs t strict objType type (.mk name args) ⟨objs.reverse ++ below, m⟩ =
      withMaker (checkNodeValues t strict objType type args objs) ⟨objs.reverse ++ below, m⟩ := by
  cases args with
  | literalArgs literal =>
    obtain ⟨obj, rfl⟩ := List.length_eq_one_iff.mp count
    by_cases arity : narg t type = 1
    · obtain ⟨arg, declared⟩ := List.length_eq_one_iff.mp arity
      simp only [checkNodeArgs, checkNodeValues, arity, declared, ne_eq, not_true_eq_false, if_false]
      have read : stackAt 0 (⟨[obj].reverse ++ below, m⟩ : EvalState ι V) = _ := stackAt_run (first_under obj [] below)
      rw [bind_of_ok read, check_run]
      unfold withMaker
      rw [check_run]
      cases checkNodeArgValue t strict type arg 1 (objType obj.value) <;> rfl
    · simp only [checkNodeArgs, checkNodeValues, arity, ne_eq, not_false_eq_true, if_true]
      rfl
  | listArgs list =>
    by_cases arity : narg t type = list.length
    · simp only [checkNodeArgs, checkNodeValues, arity, ne_eq, not_true_eq_false, if_false]
      rw [← arity, show narg t type = (t.astType type).args.length from rfl,
        checkNodeArgsLoop_run t strict objType type m _ objs below 1 (arity.trans count.symm) (by unfold narg; omega),
        check_run]
      unfold withMaker
      rw [check_run]
      cases checkArgs t strict objType type 1 (t.astType type).args objs <;> rfl
    · simp only [checkNodeArgs, checkNodeValues, arity, ne_eq, not_false_eq_true, if_true]
      rfl

/-- `run` on a stack with the arguments on top computes `value`. -/
def Consumes (run : EvalM ι V V) (value : MakerM ι V) (objs below : List (StackObj V)) (m : MakerState ι) : Prop :=
  match value m with
  | .ok v m' => run ⟨objs.reverse ++ below, m⟩ = .ok v ⟨leftover m objs below, m'⟩
  | .error e m' => ∃ stack, run ⟨objs.reverse ++ below, m⟩ = .error e ⟨stack, m'⟩

section Consumes
variable {run : EvalM ι V V} {value : MakerM ι V} {objs below : List (StackObj V)} {m m' : MakerState ι}

omit [DecidableEq ι] in
theorem Consumes.of_ok (consumes : Consumes run value objs below m) {v : V} (outcome : value m = .ok v m') :
    run ⟨objs.reverse ++ below, m⟩ = .ok v ⟨leftover m objs below, m'⟩ := by
  unfold Consumes at consumes
  rwa [outcome] at consumes

omit [DecidableEq ι] in
theorem Consumes.of_error (consumes : Consumes run value objs below m) {e : Stop ι} (outcome : value m = .error e m') :
    ∃ stack, run ⟨objs.reverse ++ below, m⟩ = .error e ⟨stack, m'⟩ := by
  unfold Consumes at consumes
  rwa [outcome] at consumes

end Consumes

/-- A maker does on the stack what `vals` says of the values. -/
structure Implements (maker : Maker ι V) (vals : Values ι V) : Prop where
  literal : ∀ literal, maker.makeCptr literal = vals.literal literal
  objType : maker.objType = vals.objType
  node : ∀ type name args objs below m, objs.length = argCount args →
    Consumes (maker.newNode type (.mk name args)) (nodeFromValues t strict vals type args objs) objs below m
  list : ∀ type base elems objs below m, objs.length = elems.length →
    Consumes (maker.newList type (.mk base elems)) (listFromValues t strict vals type (objs.map StackObj.value))
      objs below m

section FromValues
variable {t strict} {vals : Values ι V} {type : ι} {args : NodeArgs} {objs : List (StackObj V)} {values : List V}
  {m m' : MakerState ι}

/-- A body that computes the value of the node on the full stack, with the argument guard around it. -/
theorem consumes_node {run : EvalM ι V V} {body : EvalM ι V V} {below : List (StackObj V)} {name : NodeName}
    (count : objs.length = argCount args)
    (same : run ⟨objs.reverse ++ below, m⟩ =
      checked (checkNodeArgs t strict vals.objType type (.mk name args)) (narg t type) body ⟨objs.reverse ++ below, m⟩)
    (value : narg t type = objs.length → body ⟨objs.reverse ++ below, m⟩ =
      match vals.node type (objs.map StackObj.value) with
      | .ok v => .ok v ⟨objs.reverse ++ below, { m with ast := m.ast ++ vals.made v, asked := m.asked ++ vals.asks v }⟩
      | .error e => .error e ⟨objs.reverse ++ below, m⟩) :
    Consumes run (nodeFromValues t strict vals type args objs) objs below m := by
  rw [checked_run _ _ _ _ (checkNodeArgs_run t strict vals.objType type name args objs below m count)] at same
  unfold Consumes
  rw [nodeFromValues_run]
  cases held : checkNodeValues t strict vals.objType type args objs m with
  | error e m' => exact ⟨_, by rw [same, held]⟩
  | ok _ m' =>
    obtain ⟨rfl, accepts⟩ := (checkNodeValues_ok count).mp held
    have arity : narg t type = objs.length := accepts.casts.length_eq
    have value := value arity
    rw [held, arity] at same
    cases made : vals.node type (objs.map StackObj.value) with
    | error e => rw [made] at value; exact ⟨_, same.trans (destructing_run_error value)⟩
    | ok v => rw [made] at value; exact same.trans (destructing_run_ok value)

theorem consumes_list {run : EvalM ι V V} {body : EvalM ι V V} {below : List (StackObj V)} {base : NodeName}
    {elems : List ListElem} (count : objs.length = elems.length)
    (same : run ⟨objs.reverse ++ below, m⟩ =
      checked (checkListArgs t strict vals.objType type (.mk base elems)) elems.length body ⟨objs.reverse ++ below, m⟩)
    (value : body ⟨objs.reverse ++ below, m⟩ = check (vals.list type (objs.map StackObj.value))
      ⟨objs.reverse ++ below, { m with asked := m.asked ++ vals.listAsks objs.length }⟩) :
    Consumes run (listFromValues t strict vals type (objs.map StackObj.value)) objs below m := by
  have init : checkListArgs t strict vals.objType type (.mk base elems) ⟨objs.reverse ++ below, m⟩ =
      withMaker (check (checkElems t strict vals.objType type 0 (objs.map StackObj.value))) ⟨objs.reverse ++ below, m⟩ := by
    have looped := checkListArgsLoop_run t strict vals.objType type m objs.length objs below (Nat.le_refl _)
    rw [Nat.sub_self] at looped
    rw [checkListArgs, ← count, looped, check_run, withMaker_run, check_run]
    cases checkElems t strict vals.objType type 0 (objs.map StackObj.value) <;> rfl
  rw [checked_run _ _ _ _ init, check_run, ← count] at same
  rw [check_run] at value
  unfold Consumes
  rw [listFromValues_run, List.length_map]
  cases held : checkElems t strict vals.objType type 0 (objs.map StackObj.value) with
  | error e => exact ⟨_, by rw [same, held]⟩
  | ok _ =>
    rw [held] at same
    cases made : vals.list type (objs.map StackObj.value) with
    | error e => rw [made] at value; exact ⟨_, same.trans (destructing_run_error value)⟩
    | ok v => rw [made] at value; exact same.trans (destructing_run_ok value)

end FromValues

theorem typeMaker_implements : Implements t strict (TypeMaker t strict) typeValues where
  literal _ := rfl
  objType := rfl
  node _ _ _ _ _ _ count := consumes_node count checked_pure fun _ => by simp [typeValues]; rfl
  list _ _ _ _ _ _ count := consumes_list count checked_pure (by simp [typeValues]; rfl)

omit [DecidableEq ι] in
theorem forM_grant : ∀ (reqs : List (Request ι)) (m : MakerState ι),
    reqs.forM grant m = .ok () { m with asked := m.asked ++ reqs }
  | [], m => by
    rw [List.append_nil]
    rfl
  | req :: reqs, m => by
    have rest := forM_grant reqs { m with asked := m.asked ++ [req] }
    rw [List.append_assoc, List.singleton_append] at rest
    exact rest

theorem nodeMaker_implements : Implements t strict (NodeMaker t strict) (nodeValues t) where
  literal _ := rfl
  objType := rfl
  node type name args objs below m count := by
    refine consumes_node count rfl fun arity => ?_
    have read := newNodeArgs_run t type m _ objs below 0 arity (Nat.zero_add _)
    rw [check_run] at read
    rw [nodeValues_node]
    cases fields : argFields (t.astType type).args (objs.map StackObj.value) with
    | error e => rw [fields] at read; exact bind_of_error read
    | ok fields' =>
      rw [fields] at read
      refine (bind_of_ok read).trans ?_
      rw [withMaker_run, astNew, bind_of_ok (forM_grant _ _)]
      exact congrArg (fun reqs => EStateM.Result.ok _ (⟨_, { m with ast := _, asked := m.asked ++ reqs }⟩ : EvalState ι _))
        (List.flatMap_singleton ..).symm
  list type base elems objs below m count := by
    refine consumes_list count rfl ?_
    have read := newListElems_run { m with asked := m.asked ++ listAsks objs.length } objs below
    have asked : withMaker ((listAsks objs.length).forM grant) (⟨objs.reverse ++ below, m⟩ : EvalState ι (ObjValue ι)) =
        .ok () ⟨objs.reverse ++ below, { m with asked := m.asked ++ listAsks objs.length }⟩ := by
      rw [withMaker_run, forM_grant]
    rw [← count, bind_of_ok asked, nodeValues_list]
    rw [check_run] at read ⊢
    cases elems : listElems (objs.map StackObj.value) with
    | error e => rw [elems] at read; exact bind_of_error read
    | ok elems' => rw [elems] at read; exact bind_of_ok read

end Makers

end CxxpyTree.Obj
