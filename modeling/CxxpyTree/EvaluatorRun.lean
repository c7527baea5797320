import CxxpyTree.MakerRun

/-! Runs of the evaluator: every visit pushes the value computed without a stack. -/

namespace CxxpyTree.Obj
open Machine

variable {ι : Type}

/-- An argument that is evaluated without a check. -/
def IsLiteral : ArgValue → Prop
  | .literalValue _ => True
  | _ => False

def OnlyLiterals : NodeArgs → Prop
  | .literalArgs _ => True
  | .listArgs list => ∀ arg ∈ list, IsLiteral arg.value

section Strands
variable [DecidableEq ι] (t : TypeTable ι) (strict : Bool) {V : Type} (vals : Values ι V) (m : MakerState ι)

mutual

/-- The first check that succeeds is that of a node whose arguments are literals, at least one: where the flag is up,
they are stranded on the stack. -/
def strandsTreeNode : TreeNode → Prop
  | .mk name args => strandsNodeArgs args ∨ OnlyLiterals args ∧ argCount args ≠ 0 ∧
      ∃ v m', valueTreeNode t strict vals (.mk name args) m = .ok v m'
  termination_by structural node => node

def strandsNodeArgs : NodeArgs → Prop
  | .literalArgs _ => False
  | .listArgs list => strandsNodeArgList list
  termination_by structural args => args

def strandsNodeArgList : List NodeArg → Prop
  | [] => False
  | arg :: list => strandsNodeArg arg ∨ IsLiteral arg.value ∧ strandsNodeArgList list
  termination_by structural list => list

def strandsNodeArg : NodeArg → Prop
  | .mk _ value => strandsArgValue value
  termination_by structural arg => arg

def strandsArgValue : ArgValue → Prop
  | .nodeValue node => strandsTreeNode node
  | .listValue list => strandsNodeList list
  | .literalValue _ => False
  termination_by structural value => value

def strandsNodeList : NodeList → Prop
  | .mk _ elems => strandsListElems elems 0
  termination_by structural list => list

def strandsListElems : List ListElem → (k : Nat) → Prop
  | [], _ => False
  | elem :: _, k => strandsListElem elem k
  termination_by structural elems => elems

def strandsListElem : ListElem → (k : Nat) → Prop
  | .mk index node, k => index.toNat = k ∧ strandsTreeNode node
  termination_by structural elem => elem

end

end Strands

section Flag
variable [DecidableEq ι] {t : TypeTable ι} {strict : Bool} {V : Type} {vals : Values ι V} {m m' : MakerState ι}

theorem nodeFromValues_flag {type : ι} {args : NodeArgs} {objs : List (StackObj V)} {v : V}
    (returned : nodeFromValues t strict vals type args objs m = .ok v m') : m'.nargError = false := by
  rw [nodeFromValues_run] at returned
  split at returned
  next => cases returned
  next =>
    split at returned
    next => cases returned
    next => cases returned; rfl

theorem valueTreeNode_flag {node : TreeNode} {v : V}
    (returned : valueTreeNode t strict vals node m = .ok v m') : m'.nargError = false := by
  cases node with
  | mk name args =>
    obtain ⟨objs, m₁, entry, m₂, _, _, made⟩ := valueTreeNode_returned returned
    exact nodeFromValues_flag made

theorem valueNodeList_flag {list : NodeList} {v : V}
    (returned : valueNodeList t strict vals list m = .ok v m') : m'.nargError = false := by
  cases list with
  | mk base elems =>
    obtain ⟨values, m₁, entry, m₂, _, _, made⟩ := valueNodeList_returned returned
    obtain ⟨rfl, -⟩ := listFromValues_ok.mp made
    rfl

/-- Only a literal is evaluated without a check, and so may leave the flag up. -/
theorem valueArgValue_flag {arg : ArgValue} {v : V} (returned : valueArgValue t strict vals arg m = .ok v m') :
    m'.nargError = false ∨ m' = m ∧ IsLiteral arg := by
  cases arg with
  | nodeValue node => exact .inl (valueTreeNode_flag (by rwa [valueArgValue] at returned))
  | listValue list => exact .inl (valueNodeList_flag (by rwa [valueArgValue] at returned))
  | literalValue literal =>
    rw [valueArgValue] at returned
    cases returned
    exact .inr ⟨rfl, trivial⟩

theorem valueNodeArg_flag {arg : NodeArg} {obj : StackObj V} (returned : valueNodeArg t strict vals arg m = .ok obj m') :
    m'.nargError = false ∨ m' = m ∧ IsLiteral arg.value := by
  cases arg with
  | mk name value =>
    rw [valueNodeArg] at returned
    obtain ⟨v, m₁, valued, returned⟩ := bind_eq_ok.mp returned
    cases returned
    exact valueArgValue_flag valued

theorem valueNodeArgList_flag : ∀ {list : List NodeArg} {objs : List (StackObj V)} {m m' : MakerState ι},
    valueNodeArgList t strict vals list m = .ok objs m' →
    m'.nargError = false ∨ m' = m ∧ ∀ arg ∈ list, IsLiteral arg.value
  | [], _, m, m', returned => by
    rw [valueNodeArgList] at returned
    cases returned
    exact .inr ⟨rfl, by simp⟩
  | .mk name value :: list, _, m, m', returned => by
    obtain ⟨v, m₁, objs, first, rest, rfl⟩ := valueNodeArgList_returned returned
    rcases valueNodeArgList_flag rest with down | ⟨rfl, literals⟩
    · exact .inl down
    · rcases valueArgValue_flag first with down | ⟨rfl, literal⟩
      · exact .inl down
      · exact .inr ⟨rfl, List.forall_mem_cons.mpr ⟨literal, literals⟩⟩

theorem valueNodeArgs_flag {args : NodeArgs} {objs : List (StackObj V)}
    (returned : valueNodeArgs t strict vals args m = .ok objs m') :
    m'.nargError = false ∨ m' = m ∧ OnlyLiterals args := by
  cases args with
  | listArgs list => exact valueNodeArgList_flag (by rwa [valueNodeArgs] at returned)
  | literalArgs literal =>
    rw [valueNodeArgs] at returned
    cases returned
    exact .inr ⟨rfl, trivial⟩

theorem valueListElem_flag {elem : ListElem} {k : Nat} {v : V}
    (returned : valueListElem t strict vals elem k m = .ok v m') : m'.nargError = false := by
  cases elem with
  | mk index node =>
    rw [valueListElem_run] at returned
    split at returned
    next => cases returned
    next => exact valueTreeNode_flag returned

theorem valueListElems_flag : ∀ {elems : List ListElem} {k : Nat} {values : List V} {m m' : MakerState ι},
    valueListElems t strict vals elems k m = .ok values m' → m'.nargError = false ∨ m' = m ∧ values = []
  | [], _, _, m, m', returned => by
    rw [valueListElems] at returned
    cases returned
    exact .inr ⟨rfl, rfl⟩
  | .mk index node :: elems, k, _, m, m', returned => by
    obtain ⟨v, m₁, values, _, first, rest, rfl⟩ := valueListElems_returned returned
    rcases valueListElems_flag rest with down | ⟨rfl, _⟩
    · exact .inl down
    · exact .inl (valueTreeNode_flag first)

theorem valueNodeArgList_length : ∀ {list : List NodeArg} {objs : List (StackObj V)} {m m' : MakerState ι},
    valueNodeArgList t strict vals list m = .ok objs m' → objs.length = list.length
  | [], _, _, _, returned => by
    rw [valueNodeArgList] at returned
    cases returned
    rfl
  | .mk name value :: list, _, _, _, returned => by
    obtain ⟨v, m₁, objs, _, rest, rfl⟩ := valueNodeArgList_returned returned
    simp [valueNodeArgList_length rest]

theorem valueNodeArgs_length {args : NodeArgs} {objs : List (StackObj V)} {m m' : MakerState ι}
    (returned : valueNodeArgs t strict vals args m = .ok objs m') : objs.length = argCount args := by
  cases args with
  | listArgs list => exact valueNodeArgList_length (by rwa [valueNodeArgs] at returned)
  | literalArgs literal =>
    rw [valueNodeArgs] at returned
    cases returned
    rfl

theorem valueListElems_length : ∀ {elems : List ListElem} {k : Nat} {values : List V} {m m' : MakerState ι},
    valueListElems t strict vals elems k m = .ok values m' → values.length = elems.length
  | [], _, _, _, _, returned => by
    rw [valueListElems] at returned
    cases returned
    rfl
  | .mk index node :: elems, k, _, _, _, returned => by
    obtain ⟨v, m₁, values, _, _, rest, rfl⟩ := valueListElems_returned returned
    simp [valueListElems_length rest]

end Flag

section Refinement
variable {t : TypeTable ι} {strict : Bool} {V α β : Type}

/-- `run` does to the stack `start` what `value` computes: it leaves `final` of the result. -/
def Computes (run : EvalM ι V Unit) (start : List (StackObj V)) (value : MakerM ι α)
    (final : α → List (StackObj V)) (m : MakerState ι) : Prop :=
  match value m with
  | .ok a m' => run ⟨start, m⟩ = .ok () ⟨final a, m'⟩
  | .error e m' => ∃ stack, run ⟨start, m⟩ = .error e ⟨stack, m'⟩

section Computes
variable {run run' : EvalM ι V Unit} {start : List (StackObj V)} {value : MakerM ι α} {final : α → List (StackObj V)}
  {m m' : MakerState ι}

theorem Computes.of_ok (computes : Computes run start value final m) {a : α} (outcome : value m = .ok a m') :
    run ⟨start, m⟩ = .ok () ⟨final a, m'⟩ := by
  unfold Computes at computes
  rwa [outcome] at computes

theorem Computes.of_error (computes : Computes run start value final m) {e : Stop ι} (outcome : value m = .error e m') :
    ∃ stack, run ⟨start, m⟩ = .error e ⟨stack, m'⟩ := by
  unfold Computes at computes
  rwa [outcome] at computes

theorem Computes.intro (returns : ∀ a m', value m = .ok a m' → run ⟨start, m⟩ = .ok () ⟨final a, m'⟩)
    (stops : ∀ e m', value m = .error e m' → ∃ stack, run ⟨start, m⟩ = .error e ⟨stack, m'⟩) :
    Computes run start value final m := by
  unfold Computes
  cases outcome : value m with
  | ok a m' => exact returns a m' outcome
  | error e m' => exact stops e m' outcome

theorem Computes.bind {value' : α → MakerM ι β} {middle : α → List (StackObj V)} {final : β → List (StackObj V)}
    (first : Computes run start value middle m)
    (rest : ∀ a m', value m = .ok a m' → Computes run' (middle a) (value' a) final m') :
    Computes (run >>= fun _ => run') start (value >>= value') final m := by
  apply Computes.intro
  · intro b m'' returned
    obtain ⟨a, m', outcome, outcome'⟩ := bind_eq_ok.mp returned
    exact (bind_of_ok (first.of_ok outcome)).trans ((rest a m' outcome).of_ok outcome')
  · intro e m'' failed
    rcases bind_eq_error.mp failed with outcome | ⟨a, m', outcome, outcome'⟩
    · obtain ⟨stack, stopped⟩ := first.of_error outcome
      exact ⟨stack, bind_of_error stopped⟩
    · obtain ⟨stack, stopped⟩ := (rest a m' outcome).of_error outcome'
      exact ⟨stack, (bind_of_ok (first.of_ok outcome)).trans stopped⟩

/-- The last step of a computation only shapes its result. -/
theorem Computes.map {shape : α → β} {final : β → List (StackObj V)}
    (computed : Computes run start value (fun a => final (shape a)) m) :
    Computes run start (value >>= fun a => pure (shape a)) final m := by
  apply Computes.intro
  · intro b m'' returned
    obtain ⟨a, m', outcome, shaped⟩ := bind_eq_ok.mp returned
    cases shaped
    exact computed.of_ok outcome
  · intro e m'' failed
    rcases bind_eq_error.mp failed with outcome | ⟨a, m', _, shaped⟩
    · exact computed.of_error outcome
    · cases shaped

end Computes

theorem withMaker_consumes {step : MakerM ι α} {run : α → EvalM ι V V} {objs below : List (StackObj V)}
    {value : α → MakerM ι V} {m : MakerState ι} (kept : ∀ {a m'}, step m = .ok a m' → m'.nargError = m.nargError)
    (rest : ∀ a m', step m = .ok a m' → Consumes (run a) (value a) objs below m') :
    Consumes (withMaker step >>= run) (step >>= value) objs below m := by
  have stepped : withMaker step ⟨objs.reverse ++ below, m⟩ = _ := withMaker_run step _
  unfold Consumes
  cases outcome : step m with
  | error e m' =>
    rw [outcome] at stepped
    rw [bind_of_error outcome]
    exact ⟨_, bind_of_error stepped⟩
  | ok a m' =>
    rw [outcome] at stepped
    have same : leftover m objs below = leftover m' objs below := by
      unfold leftover
      rw [kept outcome]
    rw [bind_of_ok outcome, bind_of_ok stepped, same]
    exact rest a m' outcome

theorem Consumes.computes {run : EvalM ι V V} {value : MakerM ι V} {objs below : List (StackObj V)} {m : MakerState ι}
    (consumes : Consumes run value objs below m)
    (popped : ∀ v m', value m = .ok v m' → leftover m objs below = below) :
    Computes (run >>= fun value => push { value }) (objs.reverse ++ below) value (fun value => { value } :: below) m := by
  apply Computes.intro
  · intro v m' outcome
    have run := consumes.of_ok outcome
    rw [popped v m' outcome] at run
    exact bind_of_ok run
  · intro e m' outcome
    obtain ⟨stack, stopped⟩ := consumes.of_error outcome
    exact ⟨stack, bind_of_error stopped⟩

variable [DecidableEq ι]

variable {maker : Maker ι V} {vals : Values ι V} (implements : Implements t strict maker vals)
include implements

theorem makeNode_consumes {name : NodeName} {args : NodeArgs} {objs below : List (StackObj V)} {m : MakerState ι}
    (count : objs.length = argCount args) :
    Consumes (makeNode t maker (.mk name args))
      (t.find name.ident >>= fun entry => nodeFromValues t strict vals entry.type args objs) objs below m :=
  withMaker_consumes find_flag fun entry m' _ => implements.node entry.type name args objs below m' count

theorem makeList_consumes {base : NodeName} {elems : List ListElem} {objs below : List (StackObj V)} {m : MakerState ι}
    (count : objs.length = elems.length) :
    Consumes (makeList t maker (.mk base elems))
      (t.find base.ident >>= fun entry => listFromValues t strict vals entry.type (objs.map StackObj.value))
      objs below m :=
  withMaker_consumes find_flag fun entry m' _ => implements.list entry.type base elems objs below m' count

theorem makeNode_computes {name : NodeName} {args : NodeArgs} {objs below : List (StackObj V)} {m m' : MakerState ι}
    (valued : valueNodeArgs t strict vals args m = .ok objs m')
    (free : m.nargError = true → ¬ strandsTreeNode t strict vals m (.mk name args)) :
    Computes (makeNode t maker (.mk name args) >>= fun value => push { value }) (objs.reverse ++ below)
      (t.find name.ident >>= fun entry => nodeFromValues t strict vals entry.type args objs)
      (fun value => { value } :: below) m' := by
  have count := valueNodeArgs_length valued
  refine (makeNode_consumes implements count).computes fun v m'' returned => ?_
  -- with the flag up there was nothing to pop
  unfold leftover
  split
  next raised =>
    rcases valueNodeArgs_flag valued with down | ⟨rfl, literals⟩
    · rw [down] at raised
      cases raised
    · have none : objs = [] := by
        by_contra given
        have some : argCount args ≠ 0 := by rwa [← count, Ne, List.length_eq_zero_iff]
        refine free raised (.inr ⟨literals, some, v, m'', ?_⟩)
        rw [valueTreeNode, bind_of_ok valued]
        exact returned
      rw [none]
      rfl
  next => rfl

omit [DecidableEq ι] implements in
theorem values_of_objects (values : List V) :
    (values.map fun value => ({ value } : StackObj V)).map StackObj.value = values := by
  rw [List.map_map]
  exact List.map_id' _

theorem makeValues_consumes {base : NodeName} {elems : List ListElem} {values : List V} {below : List (StackObj V)}
    {m : MakerState ι} (count : values.length = elems.length) :
    Consumes (makeList t maker (.mk base elems))
      (t.find base.ident >>= fun entry => listFromValues t strict vals entry.type values)
      (values.map fun value => ({ value } : StackObj V)) below m := by
  have counted : (values.map fun value => ({ value } : StackObj V)).length = elems.length := by rw [List.length_map, count]
  have consumes := @makeList_consumes _ t strict _ _ _ _ implements base elems _ below m counted
  rwa [values_of_objects] at consumes

theorem makeList_computes {base : NodeName} {elems : List ListElem} {values : List V} {below : List (StackObj V)}
    {m : MakerState ι} (count : values.length = elems.length) (flag : m.nargError = false ∨ values = []) :
    Computes (makeList t maker (.mk base elems) >>= fun value => push { value })
      ((values.map fun value => ({ value } : StackObj V)).reverse ++ below)
      (t.find base.ident >>= fun entry => listFromValues t strict vals entry.type values)
      (fun value => { value } :: below) m := by
  refine (makeValues_consumes implements count).computes fun _ _ _ => ?_
  unfold leftover
  rcases flag with clear | none
  · rw [if_neg (by rw [clear]; simp)]
  · rw [none]
    simp

omit [DecidableEq ι] implements in
theorem visitArgName_run {name : ArgName} {value : V} {below : List (StackObj V)} {m : MakerState ι} :
    visitArgName name (⟨{ value } :: below, m⟩ : EvalState ι V) =
      .ok () ⟨{ name := some name.str, value } :: below, m⟩ := rfl

theorem visitLiteral_computes (literal : Literal) (below : List (StackObj V)) (m : MakerState ι) :
    Computes (visitLiteral maker literal) below (pure (vals.literal literal)) (fun value => { value } :: below) m := by
  change visitLiteral maker literal ⟨below, m⟩ = .ok () ⟨{ value := vals.literal literal } :: below, m⟩
  rw [← implements.literal]
  rfl

set_option linter.unusedSectionVars false in
mutual

/-- Every visit pushes the value, whatever lies below, unless the flag is up and the part strands its literals. -/
theorem visitTreeNode_computes (node : TreeNode) (below : List (StackObj V)) (m : MakerState ι)
    (free : m.nargError = true → ¬ strandsTreeNode t strict vals m node) :
    Computes (visitTreeNode t maker node) below (valueTreeNode t strict vals node) (fun value => { value } :: below) m := by
  cases node with
  | mk name args =>
    have inner : m.nargError = true → ¬ strandsNodeArgs t strict vals m args := fun raised strands => free raised (.inl strands)
    rw [visitTreeNode, valueTreeNode]
    exact (visitNodeArgs_computes args below m inner).bind fun objs m' valued => makeNode_computes implements valued free
  termination_by structural node

theorem visitNodeArgs_computes (args : NodeArgs) (below : List (StackObj V)) (m : MakerState ι)
    (free : m.nargError = true → ¬ strandsNodeArgs t strict vals m args) :
    Computes (visitNodeArgs t maker args) below (valueNodeArgs t strict vals args) (fun objs => objs.reverse ++ below) m := by
  cases args with
  | listArgs list =>
    rw [visitNodeArgs, valueNodeArgs]
    exact visitNodeArgList_computes list below m free
  | literalArgs literal =>
    rw [visitNodeArgs, valueNodeArgs]
    exact visitLiteral_computes implements literal below m
  termination_by structural args

theorem visitNodeArgList_computes (list : List NodeArg) (below : List (StackObj V)) (m : MakerState ι)
    (free : m.nargError = true → ¬ strandsNodeArgList t strict vals m list) :
    Computes (visitNodeArgList t maker list) below (valueNodeArgList t strict vals list)
      (fun objs => objs.reverse ++ below) m := by
  cases list with
  | nil =>
    rw [visitNodeArgList, valueNodeArgList]
    rfl
  | cons arg list =>
    have first : m.nargError = true → ¬ strandsNodeArg t strict vals m arg := fun raised strands => free raised (.inl strands)
    rw [visitNodeArgList, valueNodeArgList]
    refine (visitNodeArg_computes arg below m first).bind fun obj m' valued => ?_
    refine Computes.map ?_
    have later : m'.nargError = true → ¬ strandsNodeArgList t strict vals m' list := by
      intro raised strands
      rcases valueNodeArg_flag valued with down | ⟨rfl, literal⟩
      · rw [down] at raised
        cases raised
      · exact free raised (.inr ⟨literal, strands⟩)
    have rest := visitNodeArgList_computes list (obj :: below) m' later
    simpa using rest
  termination_by structural list

theorem visitNodeArg_computes (arg : NodeArg) (below : List (StackObj V)) (m : MakerState ι)
    (free : m.nargError = true → ¬ strandsNodeArg t strict vals m arg) :
    Computes (visitNodeArg t maker arg) below (valueNodeArg t strict vals arg) (fun obj => obj :: below) m := by
  cases arg with
  | mk name value =>
    rw [visitNodeArg, valueNodeArg]
    exact (visitArgValue_computes value below m free).bind fun v m' _ => visitArgName_run
  termination_by structural arg

theorem visitArgValue_computes (arg : ArgValue) (below : List (StackObj V)) (m : MakerState ι)
    (free : m.nargError = true → ¬ strandsArgValue t strict vals m arg) :
    Computes (visitArgValue t maker arg) below (valueArgValue t strict vals arg) (fun value => { value } :: below) m := by
  cases arg with
  | nodeValue node =>
    rw [visitArgValue, valueArgValue]
    exact visitTreeNode_computes node below m free
  | listValue list =>
    rw [visitArgValue, valueArgValue]
    exact visitNodeList_computes list below m free
  | literalValue literal =>
    rw [visitArgValue, valueArgValue]
    exact visitLiteral_computes implements literal below m
  termination_by structural arg

theorem visitNodeList_computes (list : NodeList) (below : List (StackObj V)) (m : MakerState ι)
    (free : m.nargError = true → ¬ strandsNodeList t strict vals m list) :
    Computes (visitNodeList t maker list) below (valueNodeList t strict vals list) (fun value => { value } :: below) m := by
  cases list with
  | mk base elems =>
    rw [visitNodeList, valueNodeList]
    refine (visitListElems_computes elems 0 below m free).bind fun values m' valued => ?_
    have kept := valueListElems_flag valued
    exact makeList_computes implements (valueListElems_length valued) (kept.imp_right And.right)
  termination_by structural list

theorem visitListElems_computes (elems : List ListElem) (k : Nat) (below : List (StackObj V)) (m : MakerState ι)
    (free : m.nargError = true → ¬ strandsListElems t strict vals m elems k) :
    Computes (visitListElems t maker elems k) below (valueListElems t strict vals elems k)
      (fun values => (values.map fun value => ({ value } : StackObj V)).reverse ++ below) m := by
  cases elems with
  | nil =>
    rw [visitListElems, valueListElems]
    rfl
  | cons elem elems =>
    rw [visitListElems, valueListElems]
    refine (visitListElem_computes elem k below m free).bind fun value m' valued => ?_
    refine Computes.map ?_
    have cleared := valueListElem_flag valued
    have rest := visitListElems_computes elems (k + 1) ({ value } :: below) m' (by rw [cleared]; nofun)
    simpa using rest
  termination_by structural elems

theorem visitListElem_computes (elem : ListElem) (k : Nat) (below : List (StackObj V)) (m : MakerState ι)
    (free : m.nargError = true → ¬ strandsListElem t strict vals m elem k) :
    Computes (visitListElem t maker elem k) below (valueListElem t strict vals elem k)
      (fun value => { value } :: below) m := by
  cases elem with
  | mk index node =>
    have visited (same : index.toNat = k) :=
      visitTreeNode_computes node below m fun raised strands => free raised ⟨same, strands⟩
    unfold Computes at visited ⊢
    rw [valueListElem_run, visitListElem]
    by_cases same : index.toNat = k
    · rw [if_neg (not_not.mpr same), if_neg (not_not.mpr same)]
      exact visited same
    · rw [if_pos same, if_pos same]
      exact ⟨below, rfl⟩
  termination_by structural elem

end

omit implements in
theorem valueTreeNode_type {node : TreeNode} {m m' : MakerState ι} {v : V}
    (returned : valueTreeNode t strict vals node m = .ok v m') : ∃ type, vals.objType v = .node type := by
  cases node with
  | mk name args =>
    obtain ⟨objs, m₁, entry, m₂, valued, _, returned⟩ := valueTreeNode_returned returned
    obtain ⟨-, -, made⟩ := (nodeFromValues_ok (valueNodeArgs_length valued)).mp returned
    exact ⟨_, vals.node_type made⟩

/-- `eval` returns the value of the root: one object is left on the stack and it is a node. -/
theorem eval_run (tree : Tree) {m : MakerState ι} (free : m.nargError = true → ¬ strandsTreeNode t strict vals m tree.root) :
    eval t maker tree m = match valueTreeNode t strict vals tree.root m with
      | .ok v m' => (.ok v, m')
      | .error e m' => (.error e, m') := by
  have visited := visitTreeNode_computes implements tree.root [] m free
  unfold eval evalTree
  cases outcome : valueTreeNode t strict vals tree.root m with
  | error e m' =>
    obtain ⟨stack, stopped⟩ := visited.of_error outcome
    rw [bind_of_error stopped]
  | ok v m' =>
    obtain ⟨type, isNode⟩ := valueTreeNode_type outcome
    have top_run : top (⟨[{ value := v }], m'⟩ : EvalState ι V) = .ok { value := v } ⟨[{ value := v }], m'⟩ := rfl
    rw [bind_of_ok (visited.of_ok outcome), get_bind]
    simp only [List.length_singleton, ne_eq, not_true_eq_false, if_false]
    rw [bind_of_ok top_run, implements.objType, isNode]
    rfl

theorem eval_returns_iff {tree : Tree} {m : MakerState ι} (clear : m.nargError = false) {v : V} :
    (eval t maker tree m).1 = .ok v ↔ ∃ m', valueTreeNode t strict vals tree.root m = .ok v m' := by
  rw [eval_run implements tree (by rw [clear]; nofun)]
  cases outcome : valueTreeNode t strict vals tree.root m <;> simp

end Refinement

end CxxpyTree.Obj
