import CxxpyTree.EvaluatorRun

/-! Evaluations that start with the arity flag up. The first check to be left skips its pop, and
what it leaves on the stack is never consumed: an evaluation that succeeds has left nothing. -/

namespace CxxpyTree.Obj
open Machine

variable {ι V α : Type}

/-- A run that returns leaves the flag down and more than `height` objects on the stack. -/
def Strays (run : EvalM ι V Unit) (start : List (StackObj V)) (height : Nat) (m : MakerState ι) : Prop :=
  ∀ s, run ⟨start, m⟩ = .ok () s → s.maker.nargError = false ∧ height < s.stack.length

section Rules
variable {run run' : EvalM ι V Unit} {start : List (StackObj V)} {value : MakerM ι α} {height height' : Nat}
  {m : MakerState ι}

theorem Computes.returned {final : α → List (StackObj V)} (computes : Computes run start value final m)
    {s : EvalState ι V} (returned : run ⟨start, m⟩ = .ok () s) :
    ∃ a m', value m = .ok a m' ∧ s = ⟨final a, m'⟩ := by
  cases outcome : value m with
  | error e m' =>
    obtain ⟨stack, stopped⟩ := computes.of_error outcome
    cases stopped.symm.trans returned
  | ok a m' =>
    cases (computes.of_ok outcome).symm.trans returned
    exact ⟨a, m', rfl, rfl⟩

theorem Strays.bind (first : Strays run start height m)
    (above : ∀ s s', s.maker.nargError = false → height < s.stack.length → run' s = .ok () s' →
      s'.maker.nargError = false ∧ height' < s'.stack.length) : Strays (run >>= fun _ => run') start height' m := by
  intro s returned
  obtain ⟨_, s₁, started, returned⟩ := bind_eq_ok.mp returned
  obtain ⟨clear, higher⟩ := first s₁ started
  exact above s₁ s clear higher returned

/-- A maker that skips its pop leaves all its arguments under the value. -/
theorem Consumes.strays {run : EvalM ι V V} {value : MakerM ι V} {objs below : List (StackObj V)}
    (consumes : Consumes run value objs below m) (lowers : ∀ {v m'}, value m = .ok v m' → m'.nargError = false)
    (raised : m.nargError = true) (some : objs ≠ []) :
    Strays (run >>= fun value => push { value }) (objs.reverse ++ below) (below.length + 1) m := by
  intro s returned
  cases outcome : value m with
  | error e m' =>
    obtain ⟨stack, stopped⟩ := consumes.of_error outcome
    cases (bind_of_error stopped).symm.trans returned
  | ok v m' =>
    cases (bind_of_ok (consumes.of_ok outcome)).symm.trans returned
    have given := List.length_pos_iff.mpr some
    exact ⟨lowers outcome, by simp [leftover, raised, given]⟩

/-- With the flag down as many objects are popped as there are arguments, whatever they are. -/
theorem Consumes.pushes {run : EvalM ι V V} {value : List (StackObj V) → MakerM ι V} {n : Nat} {s s' : EvalState ι V}
    (consumes : ∀ objs below m, objs.length = n → Consumes run (value objs) objs below m)
    (lowers : ∀ {objs v m m'}, value objs m = .ok v m' → m'.nargError = false)
    (clear : s.maker.nargError = false) (enough : n ≤ s.stack.length)
    (returned : (run >>= fun value => push { value }) s = .ok () s') :
    s'.maker.nargError = false ∧ s'.stack.length + n = s.stack.length + 1 := by
  obtain ⟨stack, m⟩ := s
  have split : stack = (stack.take n).reverse.reverse ++ stack.drop n := by simp
  have count : (stack.take n).reverse.length = n := by
    rw [List.length_reverse, List.length_take, Nat.min_eq_left enough]
  generalize (stack.take n).reverse = objs at split count
  generalize stack.drop n = below at split
  subst split
  have popped : leftover m objs below = below := if_neg (by rw [clear]; simp)
  obtain ⟨v, m', valued, rfl⟩ := ((consumes objs below m count).computes fun _ _ _ => popped).returned returned
  refine ⟨lowers valued, ?_⟩
  simp only [List.length_cons, List.length_append, List.length_reverse]
  omega

end Rules

section Visits
variable [DecidableEq ι] {t : TypeTable ι} {strict : Bool} {maker : Maker ι V} {vals : Values ι V}

theorem foundNode_flag {name : NodeName} {args : NodeArgs} {objs : List (StackObj V)} {v : V} {m m' : MakerState ι}
    (returned : (t.find name.ident >>= fun entry => nodeFromValues t strict vals entry.type args objs) m = .ok v m') :
    m'.nargError = false := by
  obtain ⟨entry, m₁, _, returned⟩ := bind_eq_ok.mp returned
  exact nodeFromValues_flag returned

theorem foundList_flag {base : NodeName} {values : List V} {v : V} {m m' : MakerState ι}
    (returned : (t.find base.ident >>= fun entry => listFromValues t strict vals entry.type values) m = .ok v m') :
    m'.nargError = false := by
  obtain ⟨entry, m₁, _, returned⟩ := bind_eq_ok.mp returned
  rw [(listFromValues_ok.mp returned).1]

variable (implements : Implements t strict maker vals)
include implements

theorem visitNodeArgList_height {list : List NodeArg} {s s' : EvalState ι V} (clear : s.maker.nargError = false)
    (returned : visitNodeArgList t maker list s = .ok () s') :
    s'.maker.nargError = false ∧ s'.stack.length = s.stack.length + list.length := by
  obtain ⟨objs, m', valued, rfl⟩ :=
    (visitNodeArgList_computes implements list s.stack s.maker (by rw [clear]; nofun)).returned returned
  refine ⟨?_, ?_⟩
  · rcases valueNodeArgList_flag valued with down | ⟨rfl, _⟩
    · exact down
    · exact clear
  · simp [valueNodeArgList_length valued, Nat.add_comm]

theorem visitListElems_height {elems : List ListElem} {k : Nat} {s s' : EvalState ι V} (clear : s.maker.nargError = false)
    (returned : visitListElems t maker elems k s = .ok () s') :
    s'.maker.nargError = false ∧ s'.stack.length = s.stack.length + elems.length := by
  obtain ⟨values, m', valued, rfl⟩ :=
    (visitListElems_computes implements elems k s.stack s.maker (by rw [clear]; nofun)).returned returned
  refine ⟨?_, ?_⟩
  · rcases valueListElems_flag valued with down | ⟨rfl, _⟩
    · exact down
    · exact clear
  · simp [valueListElems_length valued, Nat.add_comm]

omit implements in
theorem not_strands_of_literals : ∀ {list : List NodeArg} {m : MakerState ι}, (∀ arg ∈ list, IsLiteral arg.value) →
    ¬ strandsNodeArgList t strict vals m list
  | [], _, _ => id
  | .mk name value :: list, m, literals => by
    obtain ⟨literal, literals⟩ := List.forall_mem_cons.mp literals
    rintro (strands | ⟨_, strands⟩)
    · cases value with
      | literalValue _ => exact strands
      | nodeValue _ => exact literal
      | listValue _ => exact literal
    · exact not_strands_of_literals literals strands

omit implements in
theorem valueLiterals_state : ∀ {list : List NodeArg} {objs : List (StackObj V)} {m m' : MakerState ι},
    (∀ arg ∈ list, IsLiteral arg.value) → valueNodeArgList t strict vals list m = .ok objs m' → m' = m
  | [], _, _, _, _, returned => by
    rw [valueNodeArgList] at returned
    cases returned
    rfl
  | .mk name value :: list, _, m, m', literals, returned => by
    obtain ⟨literal, later⟩ := List.forall_mem_cons.mp literals
    obtain ⟨v, m₁, objs, first, rest, rfl⟩ := valueNodeArgList_returned returned
    cases value with
    | literalValue _ =>
      rw [valueArgValue] at first
      cases first
      exact valueLiterals_state later rest
    | nodeValue _ => exact absurd literal id
    | listValue _ => exact absurd literal id

set_option linter.unusedSectionVars false in
mutual

/-- A part that strands its literals leaves more than its value. -/
theorem visitTreeNode_strays (node : TreeNode) (below : List (StackObj V)) {m : MakerState ι} (raised : m.nargError = true)
    (strands : strandsTreeNode t strict vals m node) : Strays (visitTreeNode t maker node) below (below.length + 1) m := by
  cases node with
  | mk name args =>
    rw [visitTreeNode]
    rcases strands with inner | ⟨literals, some, _⟩
    · refine (visitNodeArgs_strays args below raised inner).bind fun s s' clear higher returned => ?_
      obtain ⟨down, height⟩ := Consumes.pushes (fun objs below m count => makeNode_consumes implements count)
        foundNode_flag clear (by omega) returned
      exact ⟨down, by omega⟩
    · -- the arguments are there as they are with the flag down
      have free : m.nargError = true → ¬ strandsNodeArgs t strict vals m args := by
        intro _ inner
        cases args with
        | literalArgs _ => exact inner
        | listArgs list => exact not_strands_of_literals literals inner
      intro s returned
      obtain ⟨_, s₁, visited, finished⟩ := bind_eq_ok.mp returned
      obtain ⟨objs, m', valued, rfl⟩ := (visitNodeArgs_computes implements args below m free).returned visited
      have count := valueNodeArgs_length valued
      have given : objs ≠ [] := by
        rintro rfl
        exact some count.symm
      have same : m' = m := by
        cases args with
        | literalArgs _ =>
          rw [valueNodeArgs] at valued
          cases valued
          rfl
        | listArgs list => exact valueLiterals_state literals (by rwa [valueNodeArgs] at valued)
      subst same
      exact (makeNode_consumes implements count).strays foundNode_flag raised given s finished
  termination_by structural node

theorem visitNodeArgs_strays (args : NodeArgs) (below : List (StackObj V)) {m : MakerState ι} (raised : m.nargError = true)
    (strands : strandsNodeArgs t strict vals m args) :
    Strays (visitNodeArgs t maker args) below (below.length + argCount args) m := by
  cases args with
  | listArgs list =>
    rw [visitNodeArgs]
    exact visitNodeArgList_strays list below raised strands
  | literalArgs literal => exact absurd strands id
  termination_by structural args

theorem visitNodeArgList_strays (list : List NodeArg) (below : List (StackObj V)) {m : MakerState ι}
    (raised : m.nargError = true) (strands : strandsNodeArgList t strict vals m list) :
    Strays (visitNodeArgList t maker list) below (below.length + list.length) m := by
  cases list with
  | nil => exact absurd strands id
  | cons arg list =>
    rw [visitNodeArgList]
    rcases strands with first | ⟨plain, later⟩
    · refine (visitNodeArg_strays arg below raised first).bind fun s s' clear higher returned => ?_
      obtain ⟨down, height⟩ := visitNodeArgList_height implements clear returned
      exact ⟨down, by rw [height, List.length_cons]; omega⟩
    · obtain ⟨name, value⟩ := arg
      cases value with
      | literalValue literal =>
        intro s returned
        have visited : visitNodeArg t maker (.mk name (.literalValue literal)) ⟨below, m⟩ =
            .ok () ⟨{ name := some name.str, value := maker.makeCptr literal } :: below, m⟩ := by
          rw [visitNodeArg, visitArgValue]
          rfl
        rw [bind_of_ok visited] at returned
        have strays := visitNodeArgList_strays list ({ name := some name.str, value := maker.makeCptr literal } :: below)
          raised later s returned
        simp only [List.length_cons] at strays ⊢
        exact ⟨strays.1, by omega⟩
      | nodeValue _ => exact absurd plain id
      | listValue _ => exact absurd plain id
  termination_by structural list

theorem visitNodeArg_strays (arg : NodeArg) (below : List (StackObj V)) {m : MakerState ι} (raised : m.nargError = true)
    (strands : strandsNodeArg t strict vals m arg) : Strays (visitNodeArg t maker arg) below (below.length + 1) m := by
  cases arg with
  | mk name value =>
    rw [visitNodeArg]
    refine (visitArgValue_strays value below raised strands).bind fun s s' clear higher returned => ?_
    obtain ⟨stack, m⟩ := s
    cases stack with
    | nil => cases returned
    | cons obj stack =>
      obtain ⟨name', value⟩ := obj
      cases name' with
      | some _ => cases returned
      | none => cases returned; exact ⟨clear, higher⟩
  termination_by structural arg

theorem visitArgValue_strays (arg : ArgValue) (below : List (StackObj V)) {m : MakerState ι} (raised : m.nargError = true)
    (strands : strandsArgValue t strict vals m arg) : Strays (visitArgValue t maker arg) below (below.length + 1) m := by
  cases arg with
  | nodeValue node =>
    rw [visitArgValue]
    exact visitTreeNode_strays node below raised strands
  | listValue list =>
    rw [visitArgValue]
    exact visitNodeList_strays list below raised strands
  | literalValue literal => exact absurd strands id
  termination_by structural arg

theorem visitNodeList_strays (list : NodeList) (below : List (StackObj V)) {m : MakerState ι} (raised : m.nargError = true)
    (strands : strandsNodeList t strict vals m list) : Strays (visitNodeList t maker list) below (below.length + 1) m := by
  cases list with
  | mk base elems =>
    rw [visitNodeList]
    refine (visitListElems_strays elems 0 below raised strands).bind fun s s' clear higher returned => ?_
    obtain ⟨down, height⟩ := Consumes.pushes (fun objs below m count => makeList_consumes implements count)
      foundList_flag clear (by omega) returned
    exact ⟨down, by omega⟩
  termination_by structural list

theorem visitListElems_strays (elems : List ListElem) (k : Nat) (below : List (StackObj V)) {m : MakerState ι}
    (raised : m.nargError = true) (strands : strandsListElems t strict vals m elems k) :
    Strays (visitListElems t maker elems k) below (below.length + elems.length) m := by
  cases elems with
  | nil => exact absurd strands id
  | cons elem elems =>
    rw [visitListElems]
    refine (visitListElem_strays elem k below raised strands).bind fun s s' clear higher returned => ?_
    obtain ⟨down, height⟩ := visitListElems_height implements clear returned
    exact ⟨down, by rw [height, List.length_cons]; omega⟩
  termination_by structural elems

theorem visitListElem_strays (elem : ListElem) (k : Nat) (below : List (StackObj V)) {m : MakerState ι}
    (raised : m.nargError = true) (strands : strandsListElem t strict vals m elem k) :
    Strays (visitListElem t maker elem k) below (below.length + 1) m := by
  cases elem with
  | mk index node =>
    obtain ⟨same, strands⟩ := strands
    rw [visitListElem, if_neg (not_not.mpr same)]
    exact visitTreeNode_strays node below raised strands
  termination_by structural elem

end

/-- Nothing comes of a tree that strands its literals. -/
theorem eval_strands {tree : Tree} {m : MakerState ι} (raised : m.nargError = true)
    (strands : strandsTreeNode t strict vals m tree.root) : ∃ stop, (eval t maker tree m).1 = .error stop := by
  have strays := visitTreeNode_strays implements tree.root [] raised strands
  unfold eval evalTree
  cases visited : visitTreeNode t maker tree.root ⟨[], m⟩ with
  | error e s => exact ⟨e, by rw [bind_of_error visited]⟩
  | ok _ s =>
    have higher := (strays s visited).2
    rw [List.length_nil] at higher
    refine ⟨.error (.stackFinalSize s.stack.length), ?_⟩
    rw [bind_of_ok visited, get_bind, if_pos (by omega)]
    rfl

/-- Whatever the flag was, an evaluation that succeeds returns the value of the root. -/
theorem eval_sound {tree : Tree} {m m' : MakerState ι} {v : V} (returned : eval t maker tree m = (.ok v, m')) :
    valueTreeNode t strict vals tree.root m = .ok v m' := by
  by_cases stray : m.nargError = true ∧ strandsTreeNode t strict vals m tree.root
  · obtain ⟨stop, stopped⟩ := eval_strands implements stray.1 stray.2
    rw [returned] at stopped
    cases stopped
  · rw [eval_run implements tree fun raised strands => stray ⟨raised, strands⟩] at returned
    cases valued : valueTreeNode t strict vals tree.root m with
    | ok v' m'' =>
      rw [valued] at returned
      cases returned
      rfl
    | error e m'' =>
      rw [valued] at returned
      cases returned

end Visits

end CxxpyTree.Obj
