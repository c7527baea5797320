import CxxpyTree.Lib.Logging
import CxxpyTree.MakerHistory
import CxxpyTree.VerbosePrint

/-! The tracing output of `Evaluator`: the visits of tree/eval.cpp with their calls of `dump`, and what an
evaluation with `trace_eval` writes and does. -/

namespace CxxpyTree.Obj

open Machine

/-- The functions that call `dump`, by the class of the node they visit. -/
inductive VisitFunc where
  | literal
  | nodeList
  | treeNode
  deriving DecidableEq, Repr

/-- A call of `dump`: the function and the value that it has made. -/
structure TraceLine (V : Type) where
  func : VisitFunc
  value : V

/-- `where_print_t::print`: a text that starts with `::visit(` behind any qualifiers is cut to what stands
from `visit` to the first closing parenthesis. -/
def wherePrint (whr : List Char) : List Char :=
  let visit := "::visit(".toList
  match whr.tails.find? (fun rest => visit.isPrefixOf rest) with
  | none => whr
  | some rest =>
    match rest.span (· ≠ ')') with
    | (inside, paren :: _) => (inside ++ [paren]).drop 2
    | (inside, []) => inside.drop 2

/-- The line that `dump` writes, with the texts of `__PRETTY_FUNCTION__`; none if the print never ends. -/
def TraceLine.text {V : Type} (prettyFunction : VisitFunc → List Char) (print : V → Option (List Char))
    (line : TraceLine V) : Option (List Char) := do
  let value ← print line.value
  return wherePrint (prettyFunction line.func) ++ ": ".toList ++ value ++ ['\n']

variable {ι V : Type}

/-- An evaluation and the lines it has written. -/
abbrev TracedM (ι V : Type) := EStateM (Stop ι) (EvalState ι V × List (TraceLine V))

namespace Traced

variable (t : TypeTable ι) (maker : Maker ι V) (traceEval : Bool)

def dump (func : VisitFunc) (value : V) : TracedM ι V Unit :=
  if traceEval then writeLog { func, value } else pure ()

def visitLiteral (arg : Literal) : TracedM ι V Unit := do
  let value ← quiet (pure (maker.makeCptr arg))
  dump traceEval .literal value
  quiet (push { value })

mutual

def visitTreeNode : TreeNode → TracedM ι V Unit
  | .mk name args => do
    visitNodeArgs args
    let value ← quiet (makeNode t maker (.mk name args))
    dump traceEval .treeNode value
    quiet (push { value })
  termination_by structural node => node

def visitNodeArgs : NodeArgs → TracedM ι V Unit
  | .listArgs list => visitNodeArgList list
  | .literalArgs literal => visitLiteral maker traceEval literal
  termination_by structural args => args

def visitNodeArgList : List NodeArg → TracedM ι V Unit
  | [] => pure ()
  | arg :: list => do
    visitNodeArg arg
    visitNodeArgList list
  termination_by structural list => list

def visitNodeArg : NodeArg → TracedM ι V Unit
  | .mk name value => do
    visitArgValue value
    quiet (visitArgName name)
  termination_by structural arg => arg

def visitArgValue : ArgValue → TracedM ι V Unit
  | .nodeValue node => visitTreeNode node
  | .listValue list => visitNodeList list
  | .literalValue literal => visitLiteral maker traceEval literal
  termination_by structural value => value

def visitNodeList : NodeList → TracedM ι V Unit
  | .mk base elems => do
    visitListElems elems 0
    let value ← quiet (makeList t maker (.mk base elems))
    dump traceEval .nodeList value
    quiet (push { value })
  termination_by structural list => list

def visitListElems : List ListElem → (k : Nat) → TracedM ι V Unit
  | [], _ => pure ()
  | elem :: elems, k => do
    visitListElem elem k
    visitListElems elems (k + 1)
  termination_by structural elems => elems

def visitListElem : ListElem → (k : Nat) → TracedM ι V Unit
  | .mk index node, k => do
    quiet do if index.toNat ≠ k then error (.listIndex index k)
    visitTreeNode node
  termination_by structural elem => elem

end

/-- What `eval` does behind the visit of the tree. -/
def stackResult : EvalM ι V V := do
  let s ← get
  if s.stack.length ≠ 1 then error (.stackFinalSize s.stack.length)
  let obj ← top
  match maker.objType obj.value with
  | .node _ => return obj.value
  | _ => error .stackTopKind

def evalTree (tree : Tree) : TracedM ι V V := do
  visitTreeNode t maker traceEval tree.root
  quiet (stackResult maker)

/-- `Obj::eval` with the lines it writes to the standard output. -/
def eval (tree : Tree) (m : MakerState ι) : (Except (Stop ι) V × MakerState ι) × List (TraceLine V) :=
  match evalTree t maker traceEval tree ({ stack := [], maker := m }, []) with
  | .ok value (s, out) => ((.ok value, s.maker), out)
  | .error stop (s, out) => ((.error stop, s.maker), out)

end Traced

/-- Whether the visit of a node writes a line. -/
def traced (traceEval : Bool) : AstNode → Bool
  | .literal _ | .nodeList _ | .treeNode _ => traceEval
  | _ => false

section Tells
variable (t : TypeTable ι) (maker : Maker ι V)

/-- What the line of a node says: the function of its class, and a value of the type that is named by it. -/
def Tells : AstNode → TraceLine V → Prop
  | .literal arg, line => line = ⟨.literal, maker.makeCptr arg⟩
  | .nodeList (.mk base _), line =>
    line.func = .nodeList ∧ ∃ entry, t.lookup base.ident = .ok entry ∧ maker.objType line.value = .list entry.type
  | .treeNode (.mk name _), line =>
    line.func = .treeNode ∧ ∃ entry, t.lookup name.ident = .ok entry ∧ maker.objType line.value = .node entry.type
  | _, _ => False

/-- What a maker returns has the type that it was called for. -/
structure Maker.Typed : Prop where
  literal : ∀ arg, maker.objType (maker.makeCptr arg) = .cptr .charPtr
  node : ∀ type node s, wp (maker.newNode type node) (fun v _ => maker.objType v = .node type) (fun _ _ => True) s
  list : ∀ type list s, wp (maker.newList type list) (fun v _ => maker.objType v = .list type) (fun _ _ => True) s

end Tells

section Makers
variable [DecidableEq ι] {t : TypeTable ι} {strict : Bool}

theorem typeMaker_typed : Maker.Typed (TypeMaker t strict) where
  literal _ := rfl
  node type node s := by
    change wp (checked _ _ _ >>= fun _ => _) _ _ s
    exact wp_bind.mpr (wp_any.mono (fun _ _ _ => rfl) fun _ _ _ => trivial)
  list type list s := by
    cases list
    change wp (checked _ _ _ >>= fun _ => _) _ _ s
    exact wp_bind.mpr (wp_any.mono (fun _ _ _ => rfl) fun _ _ _ => trivial)

omit [DecidableEq ι] in
theorem checked_typed {α : Type} {P : α → Prop} {init : EvalM ι V Unit} {n : Nat} {body : EvalM ι V α} {s : EvalState ι V}
    (made : ∀ s, wp body (fun v _ => P v) (fun _ _ => True) s) :
    wp (checked init n body) (fun v _ => P v) (fun _ _ => True) s := by
  refine wp_bind.mpr (wp_any.mono (fun _ s _ => wp_destructing.mpr ?_) fun _ _ _ => trivial)
  refine (made s).mono (fun v s' typed => ?_) fun _ _ _ => wp_any.mono (fun _ _ _ => trivial) fun _ _ _ => trivial
  exact wp_any.mono (fun _ _ _ => typed) fun _ _ _ => trivial

omit [DecidableEq ι] in
theorem withMaker_typed {α : Type} {P : α → Prop} {step : MakerM ι α} {s : EvalState ι V}
    (made : ∀ m, wp step (fun v _ => P v) (fun _ _ => True) m) :
    wp (withMaker step) (fun v (_ : EvalState ι V) => P v) (fun _ _ => True) s := by
  have made := made s.maker
  have stepped := withMaker_run step s.stack (m := s.maker)
  unfold wp at made ⊢
  rw [stepped]
  cases ran : step s.maker <;> (rw [ran] at made; exact made)

theorem nodeMakerOn_typed {ask : Request ι → MakerM ι Unit} : Maker.Typed (NodeMaker.on t strict ask) where
  literal _ := rfl
  node type node s := by
    refine checked_typed fun s => wp_bind.mpr (wp_any.mono (fun fields s' _ => ?_) fun _ _ _ => trivial)
    exact withMaker_typed fun m => wp_bind.mpr (wp_any.mono (fun _ _ _ => rfl) fun _ _ _ => trivial)
  list type list s := by
    cases list
    refine checked_typed fun s => wp_bind.mpr (wp_any.mono (fun _ s' _ => ?_) fun _ _ _ => trivial)
    exact wp_bind.mpr (wp_any.mono (fun _ _ _ => rfl) fun _ _ _ => trivial)

theorem nodeMaker_typed : Maker.Typed (NodeMaker t strict) := nodeMakerOn_typed

end Makers

section Visits
variable {t : TypeTable ι} {maker : Maker ι V} {traceEval : Bool}

variable (t maker traceEval) in
/-- The visits of `nodes` write their lines and do nothing else to the evaluation. -/
abbrev TracesAs {α : Type} (nodes : List AstNode) (plain : EvalM ι V α) (tracing : TracedM ι V α) : Prop :=
  Writes (fun s => t.CacheValid s.maker) (Tells t maker) (nodes.filter (traced traceEval)) plain tracing

theorem TracesAs.bind {α β : Type} {nodes more : List AstNode} {x : EvalM ι V α} {y : TracedM ι V α}
    {f : α → EvalM ι V β} {g : α → TracedM ι V β} (first : TracesAs t maker traceEval nodes x y)
    (rest : ∀ a, TracesAs t maker traceEval more (f a) (g a)) :
    TracesAs t maker traceEval (nodes ++ more) (x >>= f) (y >>= g) := by
  have both := Writes.bind first rest
  rwa [← List.filter_append] at both

theorem TracesAs.quietly {α β : Type} {nodes : List AstNode} {x : EvalM ι V α} {y : TracedM ι V α} {f : α → EvalM ι V β}
    (first : TracesAs t maker traceEval nodes x y) (rest : ∀ a, KeepsCache t (f a)) :
    TracesAs t maker traceEval nodes (x >>= f) (y >>= fun a => quiet (f a)) := by
  have both := Writes.bind first fun a => Writes.quiet (R := Tells t maker) (rest a)
  rwa [List.append_nil] at both

/-- A node without a line stands behind the others. -/
theorem TracesAs.behind {α : Type} {nodes : List AstNode} {node : AstNode} {x : EvalM ι V α} {y : TracedM ι V α}
    (traces : TracesAs t maker traceEval nodes x y) (silent : traced traceEval node = false) :
    TracesAs t maker traceEval (nodes ++ [node]) x y := by
  rw [TracesAs, List.filter_append, List.filter_singleton, silent]
  rwa [cond_false, List.append_nil]

/-- A value is made, dumped and pushed. -/
theorem dumped_traces {node : AstNode} {func : VisitFunc} {make : EvalM ι V V} (dumps : traced traceEval node = traceEval)
    (made : ∀ s, t.CacheValid s.maker → wp make (fun v s' => Tells t maker node ⟨func, v⟩ ∧ t.CacheValid s'.maker)
      (fun _ s' => t.CacheValid s'.maker) s) :
    TracesAs t maker traceEval [node] (make >>= fun value => push { value }) (quiet make >>= fun value => do
      Traced.dump traceEval func value
      quiet (push { value })) := by
  cases traceEval with
  | true =>
    rw [TracesAs, List.filter_singleton, dumps]
    exact Writes.logged made fun _ => push_keeps
  | false =>
    rw [TracesAs, List.filter_singleton, dumps]
    have keeps : Keeps (fun s => t.CacheValid s.maker) make :=
      fun s valid => (made s valid).mono (fun _ _ both => both.2) fun _ _ valid => valid
    exact (Writes.quiet keeps).bind fun _ => Writes.quiet push_keeps

theorem visitLiteral_traces (arg : Literal) :
    TracesAs t maker traceEval arg.nodes (visitLiteral maker arg) (Traced.visitLiteral maker traceEval arg) :=
  @dumped_traces _ _ t maker traceEval (.literal arg) .literal (pure (maker.makeCptr arg)) rfl
    fun _ valid => wp_pure.mpr ⟨rfl, valid⟩

theorem find_tells (name : CStr) (s : EvalState ι V) (valid : t.CacheValid s.maker) :
    wp (withMaker (t.find name)) (fun entry s' => t.lookup name = .ok entry ∧ t.CacheValid s'.maker)
      (fun _ s' => t.CacheValid s'.maker) s := by
  have stepped := withMaker_run (t.find name) s.stack (m := s.maker)
  unfold wp
  rw [stepped]
  cases found : t.find name s.maker with
  | ok entry m' => exact find_valid valid found
  | error stop m' => rw [find_error found]; exact valid

variable (typed : maker.Typed) (keeps : maker.KeepsCache t)

include typed keeps

theorem makeNode_tells (name : NodeName) (args : NodeArgs) (s : EvalState ι V) (valid : t.CacheValid s.maker) :
    wp (makeNode t maker (.mk name args)) (fun v s' => Tells t maker (.treeNode (.mk name args)) ⟨.treeNode, v⟩ ∧
      t.CacheValid s'.maker) (fun _ s' => t.CacheValid s'.maker) s := by
  refine wp_bind.mpr ((find_tells name.ident s valid).mono ?_ fun _ _ valid => valid)
  rintro entry s' ⟨found, valid⟩
  refine ((typed.node entry.type _ s').and (keeps.node entry.type _ s' valid)).mono ?_ fun _ _ both => both.2
  rintro v s'' ⟨type, valid⟩
  exact ⟨⟨rfl, entry, found, type⟩, valid⟩

theorem makeList_tells (base : NodeName) (elems : List ListElem) (s : EvalState ι V) (valid : t.CacheValid s.maker) :
    wp (makeList t maker (.mk base elems)) (fun v s' => Tells t maker (.nodeList (.mk base elems)) ⟨.nodeList, v⟩ ∧
      t.CacheValid s'.maker) (fun _ s' => t.CacheValid s'.maker) s := by
  refine wp_bind.mpr ((find_tells base.ident s valid).mono ?_ fun _ _ valid => valid)
  rintro entry s' ⟨found, valid⟩
  refine ((typed.list entry.type _ s').and (keeps.list entry.type _ s' valid)).mono ?_ fun _ _ both => both.2
  rintro v s'' ⟨type, valid⟩
  exact ⟨⟨rfl, entry, found, type⟩, valid⟩

set_option linter.unusedSectionVars false in
mutual

theorem visitTreeNode_traces (node : TreeNode) :
    TracesAs t maker traceEval node.nodes (visitTreeNode t maker node) (Traced.visitTreeNode t maker traceEval node) := by
  cases node with
  | mk name args =>
    rw [visitTreeNode, Traced.visitTreeNode, TreeNode.nodes]
    have dumped := @dumped_traces _ _ t maker traceEval (.treeNode (.mk name args)) .treeNode _ rfl
      (makeNode_tells typed keeps name args)
    exact (visitNodeArgs_traces args).bind fun _ => dumped
  termination_by structural node

theorem visitNodeArgs_traces (args : NodeArgs) :
    TracesAs t maker traceEval args.nodes (visitNodeArgs t maker args) (Traced.visitNodeArgs t maker traceEval args) := by
  cases args with
  | listArgs list =>
    rw [visitNodeArgs, Traced.visitNodeArgs, NodeArgs.nodes]
    exact (visitNodeArgList_traces list).behind rfl
  | literalArgs literal =>
    rw [visitNodeArgs, Traced.visitNodeArgs, NodeArgs.nodes]
    exact (visitLiteral_traces literal).behind rfl
  termination_by structural args

theorem visitNodeArgList_traces (list : List NodeArg) : TracesAs t maker traceEval (nodeArgListNodes list)
    (visitNodeArgList t maker list) (Traced.visitNodeArgList t maker traceEval list) := by
  cases list with
  | nil =>
    rw [visitNodeArgList, Traced.visitNodeArgList, nodeArgListNodes]
    exact Writes.pure
  | cons arg list =>
    rw [visitNodeArgList, Traced.visitNodeArgList, nodeArgListNodes]
    exact (visitNodeArg_traces arg).bind fun _ => visitNodeArgList_traces list
  termination_by structural list

theorem visitNodeArg_traces (arg : NodeArg) :
    TracesAs t maker traceEval arg.nodes (visitNodeArg t maker arg) (Traced.visitNodeArg t maker traceEval arg) := by
  cases arg with
  | mk name value =>
    rw [visitNodeArg, Traced.visitNodeArg, NodeArg.nodes]
    exact ((visitArgValue_traces value).quietly fun _ => visitArgName_keeps).behind rfl
  termination_by structural arg

theorem visitArgValue_traces (value : ArgValue) :
    TracesAs t maker traceEval value.nodes (visitArgValue t maker value) (Traced.visitArgValue t maker traceEval value) := by
  cases value with
  | nodeValue node =>
    rw [visitArgValue, Traced.visitArgValue, ArgValue.nodes]
    exact (visitTreeNode_traces node).behind rfl
  | listValue list =>
    rw [visitArgValue, Traced.visitArgValue, ArgValue.nodes]
    exact (visitNodeList_traces list).behind rfl
  | literalValue literal =>
    rw [visitArgValue, Traced.visitArgValue, ArgValue.nodes]
    exact (visitLiteral_traces literal).behind rfl
  termination_by structural value

theorem visitNodeList_traces (list : NodeList) :
    TracesAs t maker traceEval list.nodes (visitNodeList t maker list) (Traced.visitNodeList t maker traceEval list) := by
  cases list with
  | mk base elems =>
    rw [visitNodeList, Traced.visitNodeList, NodeList.nodes]
    have dumped := @dumped_traces _ _ t maker traceEval (.nodeList (.mk base elems)) .nodeList _ rfl
      (makeList_tells typed keeps base elems)
    exact (visitListElems_traces elems 0).bind fun _ => dumped
  termination_by structural list

theorem visitListElems_traces (elems : List ListElem) (k : Nat) : TracesAs t maker traceEval (listElemsNodes elems)
    (visitListElems t maker elems k) (Traced.visitListElems t maker traceEval elems k) := by
  cases elems with
  | nil =>
    rw [visitListElems, Traced.visitListElems, listElemsNodes]
    exact Writes.pure
  | cons elem elems =>
    rw [visitListElems, Traced.visitListElems, listElemsNodes]
    exact (visitListElem_traces elem k).bind fun _ => visitListElems_traces elems (k + 1)
  termination_by structural elems

theorem visitListElem_traces (elem : ListElem) (k : Nat) : TracesAs t maker traceEval elem.nodes
    (visitListElem t maker elem k) (Traced.visitListElem t maker traceEval elem k) := by
  cases elem with
  | mk index node =>
    rw [visitListElem, Traced.visitListElem, ListElem.nodes]
    refine TracesAs.behind ?_ rfl
    have indexed : KeepsCache (V := V) t (do if index.toNat ≠ k then error (.listIndex index k)) := Keeps.ite .throw .pure
    have both := (Writes.quiet indexed).bind fun _ => visitTreeNode_traces node
    -- the check that passes is followed by the visit, the one that fails by nothing
    split
    next other =>
      rw [if_pos other] at both
      exact both
    next same =>
      rw [if_neg same] at both
      exact both
  termination_by structural elem

end

theorem evalTree_traces (tree : Tree) :
    TracesAs t maker traceEval tree.nodes (evalTree t maker tree) (Traced.evalTree t maker traceEval tree) := by
  have checks : KeepsCache t (Traced.stackResult maker) := by
    refine Keeps.get.bind fun s => Keeps.ite (Keeps.throw.bind fun _ => ?_) ?_
    all_goals
      refine top_keeps.bind fun obj => ?_
      cases maker.objType obj.value with
      | node _ => exact Keeps.pure
      | list _ => exact Keeps.throw
      | cptr _ => exact Keeps.throw
  exact ((visitTreeNode_traces typed keeps tree.root).quietly fun _ => checks).behind rfl

omit typed keeps in
theorem stackResult_eq_ok {s s' : EvalState ι V} {value : V} (returned : Traced.stackResult maker s = .ok value s') :
    ∃ obj, s.stack = [obj] ∧ value = obj.value := by
  obtain ⟨stack, m⟩ := s
  rw [Traced.stackResult, get_bind] at returned
  cases stack with
  | nil => cases returned
  | cons obj stack =>
    cases stack with
    | cons _ _ => cases returned
    | nil =>
      obtain ⟨obj', _, topmost, returned⟩ := bind_eq_ok.mp returned
      cases topmost
      refine ⟨obj, rfl, ?_⟩
      cases kind : maker.objType obj.value <;> (rw [kind] at returned; cases returned)
      rfl

omit typed keeps in
theorem visitTreeNode_last {node : TreeNode} {s s' : EvalState ι V} {log log' : List (TraceLine V)}
    (ran : Traced.visitTreeNode t maker true node (s, log) = .ok ⟨⟩ (s', log')) :
    ∃ value stack, s'.stack = { value } :: stack ∧ log'.getLast? = some ⟨.treeNode, value⟩ := by
  cases node with
  | mk name args =>
    rw [Traced.visitTreeNode] at ran
    obtain ⟨_, _, _, ran⟩ := bind_eq_ok.mp ran
    obtain ⟨value, middle, _, ran⟩ := bind_eq_ok.mp ran
    cases ran
    exact ⟨value, _, rfl, List.getLast?_concat⟩

/-- A traced evaluation against the same one without the trace. -/
structure TraceAdds (t : TypeTable ι) (maker : Maker ι V) (traceEval : Bool) (tree : Tree) (m : MakerState ι) : Prop where
  same : (Traced.eval t maker traceEval tree m).1 = eval t maker tree m
  whole : ∀ value, (eval t maker tree m).1 = .ok value →
    List.Forall₂ (Tells t maker) (tree.nodes.filter (traced traceEval)) (Traced.eval t maker traceEval tree m).2
  last : ∀ value, (eval t maker tree m).1 = .ok value → traceEval = true →
    (Traced.eval t maker traceEval tree m).2.getLast? = some ⟨.treeNode, value⟩
  begun : ∀ stop, (eval t maker tree m).1 = .error stop → ∃ front, front <+: tree.nodes.filter (traced traceEval) ∧
    List.Forall₂ (Tells t maker) front (Traced.eval t maker traceEval tree m).2

theorem eval_traces {m : MakerState ι} (valid : t.CacheValid m) (tree : Tree) : TraceAdds t maker traceEval tree m := by
  have all : TracesAs t maker traceEval tree.nodes _ _ := evalTree_traces typed keeps tree
  have traces := all { stack := [], maker := m } [] valid
  unfold wp at traces
  cases outcome : evalTree t maker tree { stack := [], maker := m } with
  | ok value s =>
    rw [outcome] at traces
    obtain ⟨-, out, ran, written⟩ := traces
    have plain : eval t maker tree m = (.ok value, s.maker) := by rw [eval, outcome]
    have full : Traced.eval t maker traceEval tree m = ((.ok value, s.maker), out) := by rw [Traced.eval, ran]; rfl
    refine ⟨by rw [full, plain], fun _ _ => by rw [full]; exact written, ?_, by rw [plain]; intro stop failed; cases failed⟩
    intro value' returned on
    subst on
    rw [plain] at returned
    cases returned
    -- the value is what the visit of the root has pushed last
    obtain ⟨⟨⟩, ⟨s₁, log⟩, visited, ended⟩ := bind_eq_ok.mp ran
    obtain ⟨pushed, stack, top, lastLine⟩ := visitTreeNode_last visited
    cases checked : Traced.stackResult maker s₁ with
    | error _ _ => rw [quiet, checked] at ended; cases ended
    | ok value' s₂ =>
      rw [quiet, checked] at ended
      cases ended
      obtain ⟨obj, only, rfl⟩ := stackResult_eq_ok checked
      rw [only] at top
      cases top
      rw [full]
      exact lastLine
  | error stop s =>
    rw [outcome] at traces
    obtain ⟨-, out, ran, front, before, written⟩ := traces
    have plain : eval t maker tree m = (.error stop, s.maker) := by rw [eval, outcome]
    have full : Traced.eval t maker traceEval tree m = ((.error stop, s.maker), out) := by rw [Traced.eval, ran]; rfl
    refine ⟨by rw [full, plain], ?_, ?_, fun _ _ => ⟨front, before, by rw [full]; exact written⟩⟩
    all_goals
      rw [plain]
      intro value returned
      cases returned

end Visits

section Kinds
variable {t : TypeTable ι} {maker : Maker ι V}

/-- The function of a line and the type of its value. -/
def TraceLine.kind (maker : Maker ι V) (line : TraceLine V) : VisitFunc × ObjType ι := (line.func, maker.objType line.value)

variable (t) in
/-- The kind of line that a node has by the names in it. -/
def kindOf : AstNode → Option (VisitFunc × ObjType ι)
  | .literal _ => some (.literal, .cptr .charPtr)
  | .nodeList (.mk base _) => (t.lookup base.ident).toOption.map fun entry => (.nodeList, .list entry.type)
  | .treeNode (.mk name _) => (t.lookup name.ident).toOption.map fun entry => (.treeNode, .node entry.type)
  | _ => none

theorem Tells.kind_eq (typed : maker.Typed) {node : AstNode} {line : TraceLine V} (tells : Tells t maker node line) :
    kindOf t node = some (line.kind maker) := by
  cases node with
  | literal arg =>
    cases tells
    exact congrArg some (Prod.ext rfl (typed.literal arg).symm)
  | nodeList list =>
    cases list
    obtain ⟨func, entry, found, type⟩ := tells
    rw [kindOf, found, TraceLine.kind, func, type]
    rfl
  | treeNode node =>
    cases node
    obtain ⟨func, entry, found, type⟩ := tells
    rw [kindOf, found, TraceLine.kind, func, type]
    rfl
  | _ => exact tells.elim

theorem kinds_eq (typed : maker.Typed) {nodes : List AstNode} {out : List (TraceLine V)}
    (written : List.Forall₂ (Tells t maker) nodes out) : out.map (TraceLine.kind maker) = nodes.filterMap (kindOf t) := by
  induction written with
  | nil => rfl
  | cons tells _ ih => rw [List.map_cons, List.filterMap_cons, tells.kind_eq typed, ih]

/-- The lines of a traced evaluation are of the kinds that the tree has, or of the first of them. -/
theorem TraceAdds.kinds (typed : maker.Typed) {tree : Tree} {m : MakerState ι} (adds : TraceAdds t maker true tree m) :
    (Traced.eval t maker true tree m).2.map (TraceLine.kind maker) <+: (tree.nodes.filter (traced true)).filterMap (kindOf t) ∧
    ((∃ value, (eval t maker tree m).1 = .ok value) → (Traced.eval t maker true tree m).2.map (TraceLine.kind maker) =
      (tree.nodes.filter (traced true)).filterMap (kindOf t)) := by
  cases outcome : (eval t maker tree m).1 with
  | ok value =>
    have all := kinds_eq typed (adds.whole value outcome)
    exact ⟨all ▸ List.prefix_rfl, fun _ => all⟩
  | error stop =>
    obtain ⟨front, before, written⟩ := adds.begun stop outcome
    refine ⟨kinds_eq typed written ▸ before.filterMap (kindOf t), ?_⟩
    rintro ⟨value, returned⟩
    cases returned

end Kinds

section Text
variable {t : TypeTable ι} {verbose : Bool} {prettyFunction : VisitFunc → List Char}

theorem TraceLine.text_isSome {print : V → Option (List Char)} {line : TraceLine V} :
    (line.text prettyFunction print).isSome ↔ (print line.value).isSome := by
  rw [TraceLine.text, option_bind_isSome fun _ => iff_of_true rfl trivial, and_true]

/-- No line of a trace holds the output up, unless it is verbose and there is a cycle of declarations. -/
theorem trace_lines_end (ends : verbose = true → ∀ i, ¬ Unfold.Cyclic t.refs i) (addr : UInt64) :
    (∀ line : TraceLine (ObjType ι), (line.text prettyFunction (ObjType.print t verbose t.types.length)).isSome) ∧
    ∀ line : TraceLine (ObjValue ι), (line.text prettyFunction (ObjValue.print t verbose t.types.length addr)).isSome := by
  have printed : ∀ i, (printAstType t verbose t.types.length i).isSome :=
    fun i => (printAstType_isSome t verbose).mpr fun on => (Unfold.within_iff t.complete).mpr (ends on i)
  refine ⟨fun line => TraceLine.text_isSome.mpr ?_, fun line => TraceLine.text_isSome.mpr ?_⟩
  · exact printObjType_isSome.mpr fun i _ => printed i
  · cases line.value with
    | node i _ | list i _ =>
      rw [ObjValue.print, option_bind_isSome fun _ => iff_of_true rfl trivial]
      exact ⟨printed i, trivial⟩
    | cptr _ => rfl

end Text

section Result
variable [DecidableEq ι] (t : TypeTable ι) (strict : Bool)

omit [DecidableEq ι] in
theorem cacheValid_new : t.CacheValid {} := fun entry cached => by cases cached

/-- Tracing only adds output, whatever a maker has evaluated before. A successful evaluation writes one line
for each literal, list and node of the tree, those of its parts before its own, and last the value that it
returns; one that fails writes the first lines of these. -/
theorem trace_adds_output (traceEval : Bool) (earlier : List Tree) (tree : Tree) :
    TraceAdds t (TypeMaker t strict) traceEval tree (evalAll t (TypeMaker t strict) earlier {}) ∧
    TraceAdds t (NodeMaker t strict) traceEval tree (evalAll t (NodeMaker t strict) earlier {}) :=
  ⟨eval_traces typeMaker_typed typeMaker_keepsCache (evalAll_keeps typeMaker_keepsCache earlier (cacheValid_new t)) tree,
    eval_traces nodeMaker_typed nodeMaker_keepsCache (evalAll_keeps nodeMaker_keepsCache earlier (cacheValid_new t)) tree⟩

/-- Two traced evaluations of a tree, with a type check and with a build, under any casts and behind any others,
write lines of the same functions and types as far as they both go; all of them if both succeed. -/
theorem traces_agree (strict' : Bool) (earlier earlier' : List Tree) (tree : Tree) :
    let types := Traced.eval t (TypeMaker t strict) true tree (evalAll t (TypeMaker t strict) earlier {})
    let nodes := Traced.eval t (NodeMaker t strict') true tree (evalAll t (NodeMaker t strict') earlier' {})
    let typeKinds := types.2.map (TraceLine.kind (TypeMaker t strict))
    let nodeKinds := nodes.2.map (TraceLine.kind (NodeMaker t strict'))
    (typeKinds <+: nodeKinds ∨ nodeKinds <+: typeKinds) ∧
    ((∃ type, types.1.1 = .ok type) → nodeKinds <+: typeKinds) ∧
    ((∃ value, nodes.1.1 = .ok value) → typeKinds <+: nodeKinds) := by
  intro types nodes typeKinds nodeKinds
  have valid : t.CacheValid (evalAll t (TypeMaker t strict) earlier {}) := evalAll_keeps typeMaker_keepsCache earlier (cacheValid_new t)
  have valid' : t.CacheValid (evalAll t (NodeMaker t strict') earlier' {}) :=
    evalAll_keeps nodeMaker_keepsCache earlier' (cacheValid_new t)
  have first : TraceAdds t (TypeMaker t strict) true tree _ := eval_traces typeMaker_typed typeMaker_keepsCache valid tree
  have second : TraceAdds t (NodeMaker t strict') true tree _ := eval_traces nodeMaker_typed nodeMaker_keepsCache valid' tree
  obtain ⟨begins, all⟩ := first.kinds typeMaker_typed
  obtain ⟨begins', all'⟩ := second.kinds nodeMaker_typed
  rw [← first.same] at all
  rw [← second.same] at all'
  refine ⟨List.prefix_or_prefix_of_prefix begins begins', fun ok => ?_, fun ok => ?_⟩
  · rw [← all ok] at begins'
    exact begins'
  · rw [← all' ok] at begins
    exact begins

end Result

end CxxpyTree.Obj
