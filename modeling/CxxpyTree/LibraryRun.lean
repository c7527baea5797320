import CxxpyTree.Abc
import CxxpyTree.EvalErrors
import CxxpyTree.ExtRepeat
import CxxpyTree.LibraryProgram
import CxxpyTree.MakerHistory
import CxxpyTree.MakerAgreement
import CxxpyTree.ObjectRequests
import CxxpyTree.PrinterProgram
import CxxpyTree.Typing

/-! Whole runs of the program with an extension library, told by what the trees of its inputs evaluate to. -/

namespace CxxpyTree
namespace Program
open Machine Obj

variable {ι : Type}

/-- The tables of a library with which every evaluation ends, and every print of what it makes. -/
structure Library.Ends (lib : Library ι) : Prop where
  sorted : lib.ext.table.Sorted
  acyclic : lib.ext.table.Acyclic
  printed : ∀ i, ¬ Unfold.Cyclic lib.ext.table.refs i
  newNode : ∀ type, lib.ext.newNode type = ownReads (lib.ext.table.astType type).args 0

section Evaluations
variable (lib : Library ι) (host : Host ι) {V : Type}

/-- The options of call `k`. -/
def HasOptions (opts : Options) (k : Nat) (opt : ExtOptions) : Prop :=
  Settles (objOptions host opts.parent) opts.extState k opt

/-- The output of the trace of an evaluation. -/
def traceText (opt : ExtOptions) (evaluation : Evaluation ι V) (tree : Tree) : List Char :=
  ((Traced.eval lib.ext.table evaluation.maker opt.traceEval tree {}).2.zipIdx.filterMap (traceLine host evaluation)).flatten

/-- What `main` is told about a stop of an evaluation. -/
inductive Throws : Obj.Stop ι → Exc → Prop where
  | error (err) : Throws (.error err) (.runtimeError (vformat err.what.toList))
  | alloc (what) : Throws (.alloc (.badAlloc what)) (.exception (host.describe (.badAlloc what)))

variable (evaluation : ExtOptions → Nat → Evaluation ι V) (shown : ExtOptions → Nat → V → List Char) (env : Env)
  (opts : Options)

/-- Input `k` is the text of a tree with a value, which is shown behind the trace. -/
def Evaluates (k : Nat) (arg : CStr) (out : List Char) : Prop :=
  ∃ tree opt v, Parses env opts k arg tree ∧ HasOptions host opts k opt ∧
    (eval lib.ext.table (evaluation opt k).maker tree {}).1 = .ok v ∧
    out = traceText lib host opt (evaluation opt k) tree ++ shown opt k v

/-- Input `k` comes to no evaluation, or its tree has no value and what tells so is thrown behind the trace. -/
def Rejects (k : Nat) (arg : CStr) (exc : Exc) (out : List Char) : Prop :=
  Halts (objOptions host opts.parent) opts.extState k env opts arg exc out ∨
    ∃ tree opt stop, Parses env opts k arg tree ∧ HasOptions host opts k opt ∧
      (eval lib.ext.table (evaluation opt k).maker tree {}).1 = .error stop ∧ Throws host stop exc ∧
      out = traceText lib host opt (evaluation opt k) tree

variable {lib host evaluation shown env opts}

theorem evaluates_apart (k : Nat) (arg : CStr) (out : List Char) (exc : Exc) (out' : List Char)
    (evaluates : Evaluates lib host evaluation shown env opts k arg out) :
    ¬ Rejects lib host evaluation env opts k arg exc out' := by
  obtain ⟨tree, opt, v, parses, has, valued, -⟩ := evaluates
  rintro ((fails | ⟨_, _, _, balks, _⟩) | ⟨tree', opt', stop, parses', has', failed, -⟩)
  · exact parses.not_fails fails.1
  · exact has.not_balks balks
  · cases parses.unique parses'
    cases has.unique has'
    cases valued.symm.trans failed

end Evaluations

section Settled
variable {host : Host ι} {opts : Options} {parent : ParentOptions}

theorem settles_of_calls {k : Nat} {s : ExtState}
    (return_ : ∀ call ∈ extCalls host.libc parent (k + 1) s, ∃ split, call = .ok split) :
    ∃ opt, Settles (objOptions host parent) s k opt := by
  induction k generalizing s with
  | zero =>
    cases ran : extOptions host.libc parent s with
    | error stop left =>
      rw [extCalls, ran] at return_
      obtain ⟨split, isOk⟩ := return_ _ (List.mem_cons_self ..)
      cases isOk
    | ok split left => exact ⟨left.opts, left, s, rfl, by rw [objOptions, ran]⟩
  | succ k ih =>
    cases ran : extOptions host.libc parent s with
    | error stop left =>
      rw [extCalls, ran] at return_
      obtain ⟨split, isOk⟩ := return_ _ (List.mem_cons_self ..)
      cases isOk
    | ok split left =>
      rw [extCalls, ran] at return_
      obtain ⟨opt, last, before, settled, returned⟩ := ih fun call later => return_ call (List.mem_cons_of_mem _ later)
      have first : objOptions host parent s = .ok left.opts left := by rw [objOptions, ran]
      exact ⟨opt, last, before, (Batch.left_of_first first).trans settled, returned⟩

/-- Where the arguments of the library are left as they are found, every call finds its options in them. -/
theorem options_settle (documented : host.libc.Documented) (goesOn : ¬ EndsFirst host.libc opts.parent opts.extArgs)
    (unchanged : Unchanged host.libc opts.extArgs) (k : Nat) :
    (∃ opt, HasOptions host opts k opt) ∧ ∀ stop, ¬ Balks (objOptions host opts.parent) opts.extState k stop := by
  have first : ∃ split left, extOptions host.libc opts.parent opts.extState = .ok split left := by
    have run : wp (extOptions host.libc opts.parent) (fun _ _ => True) (fun _ _ => False) opts.extState := by
      unfold Options.extState
      cases given : opts.extArgs with
      | nil => exact (wp_call_empty rfl rfl rfl).mono (fun _ _ _ => trivial) fun _ _ help => goesOn (.inl help)
      | cons path rest =>
        rw [given] at goesOn
        exact (wp_first documented path rest).mono (fun _ _ _ => trivial) fun _ _ ends => goesOn ends
    obtain ⟨split, left, returned, -⟩ := wp_false_iff.mp run
    exact ⟨split, left, returned⟩
  have repeats : Repeatable host.libc opts.parent opts.extArgs (k + 1) := by
    cases given : opts.extArgs with
    | nil => exact repeatable_nil
    | cons path rest => exact repeatable_of_unchanged documented (given ▸ unchanged)
  obtain ⟨split, left, returned⟩ := first
  have calls : extCalls host.libc opts.parent (k + 1) opts.extState =
      .ok split :: extCalls host.libc opts.parent k left := by
    rw [extCalls, returned]
  have all : ∀ call ∈ extCalls host.libc opts.parent (k + 1) opts.extState, ∃ split, call = .ok split := by
    intro call member
    rw [calls] at member
    rcases List.mem_cons.mp member with rfl | later
    · exact ⟨split, rfl⟩
    · obtain ⟨other, isOk, -⟩ := repeats split _ calls call later
      exact ⟨other, isOk⟩
  obtain ⟨opt, settles⟩ := settles_of_calls all
  exact ⟨⟨opt, settles⟩, fun stop => settles.not_balks⟩
end Settled

theorem mapM_of_isSome {α β : Type} {f : α → Option β} (all : ∀ a, (f a).isSome) (list : List α) :
    list.mapM f = some (list.filterMap f) := by
  induction list with
  | nil => rfl
  | cons a list ih =>
    obtain ⟨b, same⟩ := Option.isSome_iff_exists.mp (all a)
    rw [List.mapM_cons, same, ih, List.filterMap_cons_some same]
    rfl

/-- Every evaluation ends with a node, an error or exhausted pools, and every line of its trace can be printed. -/
structure Evaluation.Sound (lib : Library ι) {V : Type} (evaluation : Evaluation ι V) : Prop where
  typed : evaluation.maker.Typed
  keeps : evaluation.maker.KeepsCache lib.ext.table
  printed : ∀ j v, (evaluation.print j v).isSome
  nodes : ∀ tree v, (eval lib.ext.table evaluation.maker tree {}).1 = .ok v → ∃ type, evaluation.maker.objType v = .node type
  throws : ∀ tree stop, (eval lib.ext.table evaluation.maker tree {}).1 = .error stop → stop.Thrown ∨ stop.Broke

section Calls
variable {lib : Library ι} {host : Host ι} {opt : ExtOptions} {V : Type} {evaluation : Evaluation ι V}
  (sound : evaluation.Sound lib) {shown : V → List Char} {finish : V → Main Loaders Int}
include sound

/-- An evaluation with its trace is one without, behind the output of the trace. -/
theorem evalTraced_eq (tree : Tree) (s : State Loaders) :
    evalTraced lib host opt evaluation tree s =
      match (eval lib.ext.table evaluation.maker tree {}).1 with
      | .ok v => .ok v { s with cout := s.cout ++ traceText lib host opt evaluation tree }
      | .error stop => leaveEval host stop { s with cout := s.cout ++ traceText lib host opt evaluation tree } := by
  have adds : TraceAdds lib.ext.table evaluation.maker opt.traceEval tree {} :=
    eval_traces sound.typed sound.keeps (cacheValid_new lib.ext.table) tree
  have lines : ∀ line, (traceLine host evaluation line).isSome :=
    fun line => TraceLine.text_isSome.mpr (sound.printed _ _)
  unfold evalTraced
  rw [mapM_of_isSome lines, ← adds.same]
  change (match (Traced.eval lib.ext.table evaluation.maker opt.traceEval tree {}).1.1 with
    | .ok value => pure value
    | .error stop => leaveEval host stop) { s with cout := s.cout ++ traceText lib host opt evaluation tree } = _
  cases (Traced.eval lib.ext.table evaluation.maker opt.traceEval tree {}).1.1 <;> rfl

theorem evalThen_runs (finishes : ∀ v type s, evaluation.maker.objType v = .node type → wp (finish v)
      (fun r s' => r = 0 ∧ s'.cout = s.cout ++ shown v ∧ s'.cerr = s.cerr ∧ s'.statics.opts = s.statics.opts)
      (fun _ _ => False) s) (tree : Tree) (s : State Loaders) :
    wp (evalTraced lib host opt evaluation tree >>= finish)
      (fun r s' => r = 0 ∧ s'.cerr = s.cerr ∧ s'.statics.opts = s.statics.opts ∧
        ∃ v, (eval lib.ext.table evaluation.maker tree {}).1 = .ok v ∧
          s'.cout = s.cout ++ (traceText lib host opt evaluation tree ++ shown v))
      (fun exc s' => s'.cerr = s.cerr ∧ ∃ stop, (eval lib.ext.table evaluation.maker tree {}).1 = .error stop ∧
        Throws host stop exc ∧ s'.cout = s.cout ++ traceText lib host opt evaluation tree) s := by
  have stepped := @evalTraced_eq _ lib host opt _ _ sound tree s
  cases outcome : (eval lib.ext.table evaluation.maker tree {}).1 with
  | ok v =>
    rw [outcome] at stepped
    refine wp_bind.mpr ((wp_of_ok stepped).mpr ?_)
    obtain ⟨type, isNode⟩ := sound.nodes tree v outcome
    refine (finishes v type _ isNode).mono ?_ fun _ _ never => never.elim
    rintro r s' ⟨rfl, written, silent, kept⟩
    exact ⟨rfl, silent, kept, v, rfl, by rw [written, List.append_assoc]⟩
  | error stop =>
    rw [outcome] at stepped
    rcases sound.throws tree stop outcome with ⟨err, rfl⟩ | ⟨what, rfl⟩
    · exact wp_bind.mpr ((wp_of_error stepped).mpr ⟨rfl, _, rfl, .error err, rfl⟩)
    · exact wp_bind.mpr ((wp_of_error stepped).mpr ⟨rfl, _, rfl, .alloc what, rfl⟩)

end Calls

section Runs
variable [DecidableEq ι] {lib : Library ι} {host : Host ι} {load : CStr → Except (List Char) Unit} {env : Env} {opts : Options}
  {arg : CStr} {args : List CStr} {name : CStr} (given : opts.args = arg :: args)
include given

/-- The entry behind a parse of its options, with an input and an action that evaluates its tree. -/
theorem libraryEntry_eq {ast : Store.AST} {tree : Tree} (read : Stored.tree ast = some tree) {opt : ExtOptions}
    {left : ExtState} {s : State Loaders} (returned : objOptions host opts.parent s.statics.opts = .ok opt left)
    (evaluates : opt.action ≠ .printTypes) {k : Nat} : libraryEntry lib host opts k (some ast) s =
      (match opt.action with
      | .typeCheck => execShown lib host opt (typeEvaluation lib opt) tree
      | .astBuild => execShown lib host opt (nodeEvaluation lib host opt k) tree
      | _ => execRun lib host opt k tree) { s with statics := { s.statics with opts := left } } := by
  unfold libraryEntry
  rw [bind_of_ok (parseOptions_ok extOptsSlot returned)]
  cases action : opt.action with
  | printTypes => exact absurd action evaluates
  | _ =>
    simp only [given, read, List.length_cons, Nat.add_one_ne_zero, if_false]
    rfl

variable (noHelp : opts.helpExtFunc = false) (chosen : opts.action.extFuncName = some name) (loads : load name = .ok ())
  {V : Type} {evaluation : ExtOptions → Nat → Evaluation ι V} {shown : ExtOptions → Nat → V → List Char}
  {finish : ExtOptions → Nat → V → Main Loaders Int} (sound : ∀ opt k, (evaluation opt k).Sound lib)
  (finishes : ∀ opt k, k < opts.args.length → HasOptions host opts k opt → ∀ v type (s : State Loaders),
    (evaluation opt k).maker.objType v = .node type → wp (finish opt k v)
      (fun r s' => r = 0 ∧ s'.cout = s.cout ++ shown opt k v ∧ s'.cerr = s.cerr ∧ s'.statics.opts = s.statics.opts)
      (fun _ _ => False) s)
  (enters : ∀ opt k, k < opts.args.length → HasOptions host opts k opt → opt.action ≠ .printTypes ∧ ∀ tree,
    (match opt.action with
      | .typeCheck => execShown lib host opt (typeEvaluation lib opt) tree
      | .astBuild => execShown lib host opt (nodeEvaluation lib host opt k) tree
      | _ => execRun lib host opt k tree) = evalTraced lib host opt (evaluation opt k) tree >>= finish opt k)
include noHelp chosen loads sound finishes enters

/-- The program with an action of the library that evaluates the trees. -/
theorem evaluating_tells : ∃ n failure, Tells (Evaluates lib host evaluation shown env opts)
    (Rejects lib host evaluation env opts) opts.args n failure
    (main env (lib.toExtension host load opts) opts { opts := opts.extState }) := by
  have entered : body env (lib.toExtension host load opts) opts = mainLoop env (lib.toExtension host load opts) opts 0 opts.args := by
    rw [body, noHelp, given]
    rfl
  have follows : Batch.Follows State.cout
      (fun k s => s.cerr = [] ∧ Batch.left (objOptions host opts.parent) opts.extState k = some s.statics.opts)
      (fun _ s => s.cerr = []) (Evaluates lib host evaluation shown env opts) (Rejects lib host evaluation env opts) 0
      opts.args (· = 0) (body env (lib.toExtension host load opts) opts) { statics := { opts := opts.extState } } := by
    rw [entered]
    refine mainLoop_follows ?_ (fun k arg exc s there held fails => ⟨.inl (.inl ⟨fails, rfl⟩), held.1⟩) rfl ⟨rfl, rfl⟩
    rintro k arg ast tree s there ⟨silent, settled⟩ parses shows_
    have called := @runAst_eq _ _ _ _ s (lib.toExtension host load opts) opts k (some ast) chosen loads fun _ _ => rfl
    have kept : (entrySlot.loaded () s.statics).opts = s.statics.opts := by
      unfold Slot.loaded
      split <;> rfl
    have held : Batch.left (objOptions host opts.parent) opts.extState k = some (entrySlot.loaded () s.statics).opts := by
      rw [kept]
      exact settled
    let s₁ : State Loaders := { s with statics := entrySlot.loaded () s.statics }
    unfold wp
    rw [called]
    change wp (libraryEntry lib host opts k (some ast)) _ _ s₁
    cases ran : objOptions host opts.parent s₁.statics.opts with
    | error stop left =>
      have balked := parseOptions_error extOptsSlot ran
      unfold libraryEntry
      exact wp_bind.mpr ((wp_of_error balked).mpr ⟨_, .inl (.inr ⟨tree, stop, parses, ⟨left, _, held, ran⟩, rfl, rfl⟩), rfl, silent⟩)
    | ok opt left =>
      have has : HasOptions host opts k opt := ⟨left, _, held, ran⟩
      have inside := (List.getElem?_eq_some_iff.mp there).1
      obtain ⟨action, entry⟩ := enters opt k inside has
      have evaluated := @evalThen_runs _ lib host opt _ _ (sound opt k) _ _ (finishes opt k inside has) tree
        { s₁ with statics := { s₁.statics with opts := left } }
      unfold wp
      rw [libraryEntry_eq given shows_.read ran action, entry]
      refine wp.mono evaluated ?_ ?_
      · rintro r s' ⟨rfl, same, opts', v, valued, written⟩
        exact ⟨rfl, _, ⟨tree, opt, v, parses, has, valued, rfl⟩, written, same.trans silent,
          (Batch.left_succ held ran).trans (congrArg some opts'.symm)⟩
      · rintro exc s' ⟨same, stop, failed, throws, written⟩
        exact ⟨_, .inr ⟨tree, opt, stop, parses, has, failed, throws, rfl⟩, written, same.trans silent⟩
  obtain ⟨n, failure, -, tells, -⟩ := main_tells follows (fun _ _ held => held.1) (fun _ _ silent => silent)
  exact ⟨n, failure, tells⟩

end Runs

/-! The actions of a library. -/

section Actions
variable (lib : Library ι) (host : Host ι) [DecidableEq ι]

def typeEvaluations (opt : ExtOptions) (_ : Nat) : Evaluation ι (ObjType ι) := typeEvaluation lib opt

def nodeEvaluations (opt : ExtOptions) (k : Nat) : Evaluation ι (ObjValue ι) := nodeEvaluation lib host opt k

/-- The line of a result. -/
def resultLine {V : Type} (evaluation : ExtOptions → Nat → Evaluation ι V) (opt : ExtOptions) (k : Nat) (v : V) : List Char :=
  ((evaluation opt k).print 0 v).getD [] ++ [newline]

omit [DecidableEq ι] in
/-- The text of the object that a tree stands for. -/
def objectText (_ : ExtOptions) (_ : Nat) : ObjValue ι → List Char
  | .node _ ptr => lib.ext.print ptr
  | _ => []

variable {lib host} (ends : lib.Ends) (opt : ExtOptions) (k : Nat)
include ends

theorem typeEvaluation_sound : (typeEvaluations lib opt k).Sound lib where
  typed := typeMaker_typed
  keeps := typeMaker_keepsCache
  printed _ v := TraceLine.text_isSome.mp ((@trace_lines_end _ lib.ext.table opt.verbose (fun _ => []) (fun _ => ends.printed) 0).1
    ⟨.literal, v⟩)
  nodes tree v returned := by
    obtain ⟨m', valued⟩ := (eval_returns_iff (typeMaker_implements lib.ext.table (strictCasts opt)) rfl).mp returned
    exact valueTreeNode_type valued
  throws tree stop failed :=
    .inl (eval_throws ends.sorted ends.acyclic typeValues_throws (typeMaker_implements lib.ext.table (strictCasts opt)) rfl
      (Prod.ext failed rfl))

theorem nodeEvaluation_sound : (nodeEvaluations lib host opt k).Sound lib := by
  have on : (nodeEvaluations lib host opt k).maker =
      NodeMaker.on lib.ext.table (strictCasts opt) (demand lib.classes (host.pools k)) := nodeMakerOn_eq _ ends.newNode _
  have limited : Maker.Limited (Serve lib.classes (host.pools k)) (NodeMaker lib.ext.table (strictCasts opt))
      (NodeMaker.on lib.ext.table (strictCasts opt) (demand lib.classes (host.pools k))) := nodeMaker_limited
  have implements := nodeMaker_implements lib.ext.table (strictCasts opt)
  constructor
  · rw [on]
    exact nodeMakerOn_typed
  · rw [on]
    exact nodeMakerOn_keepsCache demand_keepsCache
  · exact fun j v => TraceLine.text_isSome.mp
      ((@trace_lines_end _ lib.ext.table opt.verbose (fun _ => []) (fun _ => ends.printed) (host.addr k j)).2 ⟨.literal, v⟩)
  · intro tree v returned
    rw [on] at returned ⊢
    obtain ⟨inside, beyond⟩ := eval_limited (t := lib.ext.table) serve_recedes limited tree {}
    by_cases room : Serve lib.classes (host.pools k) (eval lib.ext.table (NodeMaker lib.ext.table (strictCasts opt)) tree {}).2.asked
    · rw [inside room] at returned
      obtain ⟨m', valued⟩ := (eval_returns_iff implements rfl).mp returned
      exact valueTreeNode_type valued
    · obtain ⟨stop, stopped, -⟩ := beyond rfl room
      rw [returned] at stopped
      cases stopped
  · intro tree stop failed
    rw [on] at failed
    obtain ⟨inside, beyond⟩ := eval_limited (t := lib.ext.table) serve_recedes limited tree {}
    by_cases room : Serve lib.classes (host.pools k) (eval lib.ext.table (NodeMaker lib.ext.table (strictCasts opt)) tree {}).2.asked
    · rw [inside room] at failed
      exact .inl (eval_throws ends.sorted ends.acyclic nodeValues_throws implements rfl (Prod.ext failed rfl))
    · obtain ⟨stop', stopped, broke⟩ := beyond rfl room
      cases failed.symm.trans stopped
      exact .inr broke

end Actions

section Told
variable [DecidableEq ι] {lib : Library ι} {host : Host ι} (ends : lib.Ends) {load : CStr → Except (List Char) Unit} {env : Env}
  {opts : Options} {arg : CStr} {args : List CStr} {name : CStr} (given : opts.args = arg :: args)
  (noHelp : opts.helpExtFunc = false) (chosen : opts.action.extFuncName = some name) (loads : load name = .ok ())

omit [DecidableEq ι] in
theorem printed_finishes {V : Type} {print : V → Option (List Char)} (total : ∀ v, (print v).isSome) (v : V)
    (s : State Loaders) : wp (do writePrinted ((print v).map (· ++ [newline])); return (0 : Int))
      (fun r s' => r = 0 ∧ s'.cout = s.cout ++ ((print v).getD [] ++ [newline]) ∧ s'.cerr = s.cerr ∧
        s'.statics.opts = s.statics.opts) (fun _ _ => False) s := by
  obtain ⟨text, same⟩ := Option.isSome_iff_exists.mp (total v)
  rw [same]
  exact ⟨rfl, rfl, rfl, rfl⟩

include ends given noHelp chosen loads

theorem checking_tells (checks : ∀ k opt, k < opts.args.length → HasOptions host opts k opt → opt.action = .typeCheck) :
    ∃ n failure, Tells (Evaluates lib host (typeEvaluations lib) (resultLine (typeEvaluations lib)) env opts)
      (Rejects lib host (typeEvaluations lib) env opts) opts.args n failure
      (main env (lib.toExtension host load opts) opts { opts := opts.extState }) := by
  have sound := @typeEvaluation_sound _ lib _ ends
  refine evaluating_tells given noHelp chosen loads sound
    (fun opt k _ _ v _ s _ => printed_finishes ((sound opt k).printed 0) v s) fun opt k inside has => ?_
  rw [checks k opt inside has]
  exact ⟨by decide, fun _ => rfl⟩

theorem building_tells (builds : ∀ k opt, k < opts.args.length → HasOptions host opts k opt → opt.action = .astBuild) :
    ∃ n failure, Tells (Evaluates lib host (nodeEvaluations lib host) (resultLine (nodeEvaluations lib host)) env opts)
      (Rejects lib host (nodeEvaluations lib host) env opts) opts.args n failure
      (main env (lib.toExtension host load opts) opts { opts := opts.extState }) := by
  have sound := @nodeEvaluation_sound _ lib host _ ends
  refine evaluating_tells given noHelp chosen loads sound
    (fun opt k _ _ v _ s _ => printed_finishes ((sound opt k).printed 0) v s) fun opt k inside has => ?_
  rw [builds k opt inside has]
  exact ⟨by decide, fun _ => rfl⟩

/-- With the printer of the library, the object that a tree stands for is printed behind its build. -/
theorem objects_tell (prints : ∀ k opt, k < opts.args.length → HasOptions host opts k opt → opt.action = .printObj ∧
      opt.helpExtFunc = false ∧ ∃ printer, opt.extFuncName = some printer ∧ host.loadPrinter opt.homeDir printer = .ok ()) :
    ∃ n failure, Tells (Evaluates lib host (nodeEvaluations lib host) (objectText lib) env opts)
      (Rejects lib host (nodeEvaluations lib host) env opts) opts.args n failure
      (main env (lib.toExtension host load opts) opts { opts := opts.extState }) := by
  have finishes : ∀ opt k, k < opts.args.length → HasOptions host opts k opt → ∀ v type (s : State Loaders),
      ObjValue.type v = .node type → wp (runObject lib host opt v)
        (fun r s' => r = 0 ∧ s'.cout = s.cout ++ objectText lib opt k v ∧ s'.cerr = s.cerr ∧
          s'.statics.opts = s.statics.opts) (fun _ _ => False) s := by
    intro opt k inside has v type s isNode
    obtain ⟨action, noHelp', printer, named, loads'⟩ := prints k opt inside has
    cases v with
    | node i ptr =>
      have called := @runExtFunc_eq _ _ printerSlot (host.loadPrinter opt.homeDir) (fun _ => printerEntry lib opt ptr) printer ()
        s loads' fun _ _ => rfl
      unfold wp
      rw [runObject, named, called, printerEntry, action, noHelp']
      refine ⟨rfl, rfl, rfl, ?_⟩
      unfold Slot.loaded
      split <;> rfl
    | list i elems => cases isNode
    | cptr str => cases isNode
  refine evaluating_tells given noHelp chosen loads (@nodeEvaluation_sound _ lib host _ ends) finishes fun opt k inside has => ?_
  rw [(prints k opt inside has).1]
  exact ⟨by decide, fun _ => rfl⟩

end Told

section Values
variable [DecidableEq ι] {t : TypeTable ι} {strict : Bool} (sorted : t.Sorted) (acyclic : t.Acyclic) (tree : Tree)

include sorted acyclic in
theorem types_checked_iff : (∃ v, (eval t (TypeMaker t strict) tree {}).1 = .ok v) ↔
    ∃ type, NodeTyped t strict tree.root type := by
  simp only [eval_returns_iff (typeMaker_implements t strict) (rfl : ({} : MakerState ι).nargError = false)]
  constructor
  · rintro ⟨v, m', valued⟩
    obtain ⟨-, type, -, typed⟩ := nodeTyped_of_value acyclic (cacheValid_new t) valued
    exact ⟨type, typed⟩
  · rintro ⟨type, typed⟩
    obtain ⟨m', valued, -⟩ := value_of_nodeTyped sorted acyclic typed (cacheValid_new t)
    exact ⟨_, m', valued⟩

include sorted acyclic in
theorem nodes_built_iff : (∃ v, (eval t (NodeMaker t strict) tree {}).1 = .ok v) ↔
    (∃ type, NodeTyped t strict tree.root type) ∧ LiteralsAccepted t tree.root.nodes := by
  have step : InStep t (valueTreeNode t strict typeValues tree.root) _ _ _ := valueTreeNode_inStep tree.root
  rw [← types_checked_iff sorted acyclic tree]
  simp only [eval_returns_iff (nodeMaker_implements t strict) (rfl : ({} : MakerState ι).nargError = false),
    eval_returns_iff (typeMaker_implements t strict) (rfl : ({} : MakerState ι).nargError = false)]
  constructor
  · rintro ⟨v, m', built⟩
    obtain ⟨type, m'', checked, -, accepted, -⟩ := step.of_right (cacheValid_new t) (cacheValid_new t) built
    exact ⟨⟨type, m'', checked⟩, accepted⟩
  · rintro ⟨⟨type, m', checked⟩, accepted⟩
    exact step.of_left (cacheValid_new t) (cacheValid_new t) checked accepted

/-- The tree is well typed, its literals have values, and the pools have room for its object. -/
structure Builds (t : TypeTable ι) (strict : Bool) (classes : Classes ι) (pools : Pools) (tree : Tree) : Prop where
  typed : ∃ type, NodeTyped t strict tree.root type
  accepted : LiteralsAccepted t tree.root.nodes
  served : ∀ type obj, (eval t (NodeMaker t strict) tree {}).1 = .ok (.node type obj) → Serve classes pools obj.requests

include sorted acyclic in
theorem builds_iff {classes : Classes ι} {pools : Pools} :
    (∃ v, (eval t (NodeMaker.on t strict (demand classes pools)) tree {}).1 = .ok v) ↔ Builds t strict classes pools tree := by
  have empty : Serve classes pools ({} : MakerState ι).asked := rfl
  have limited : Maker.Limited (Serve classes pools) (NodeMaker t strict) (NodeMaker.on t strict (demand classes pools)) :=
    nodeMaker_limited
  obtain ⟨inside, beyond⟩ := eval_limited (t := t) serve_recedes limited tree {}
  have isNode {v : ObjValue ι} (built : (eval t (NodeMaker t strict) tree {}).1 = .ok v) : ∃ type obj, v = .node type obj := by
    obtain ⟨m', valued⟩ := (eval_returns_iff (nodeMaker_implements t strict) rfl).mp built
    obtain ⟨type, same⟩ := valueTreeNode_type valued
    cases v with
    | node i ptr => exact ⟨i, ptr, rfl⟩
    | list i elems => cases same
    | cptr str => cases same
  constructor
  · rintro ⟨v, returned⟩
    by_cases room : Serve classes pools (eval t (NodeMaker t strict) tree {}).2.asked
    · rw [inside room] at returned
      obtain ⟨typed, accepted⟩ := (nodes_built_iff sorted acyclic tree).mp ⟨v, returned⟩
      refine ⟨typed, accepted, fun type obj built => ?_⟩
      rw [← inside room] at built
      exact ((eval_demand_iff empty).mp built).2
    · obtain ⟨stop, stopped, -⟩ := beyond empty room
      rw [returned] at stopped
      cases stopped
  · rintro ⟨typed, accepted, served⟩
    obtain ⟨v, built⟩ := (nodes_built_iff sorted acyclic tree).mpr ⟨typed, accepted⟩
    obtain ⟨type, obj, rfl⟩ := isNode built
    exact ⟨_, (eval_demand_iff empty).mpr ⟨built, served type obj built⟩⟩

end Values

/-- The library `abc`, whose objects are all of one size. -/
def abcLibrary : Library Abc.NodeType where
  ext := Abc.library
  classes := ⟨fun _ => 16, fun _ => ⟨3, three_lt_width⟩⟩
  program := "tree".toList
  extension := "abc".toList
  printer := "abc-printer".toList

theorem abcLibrary_ends : abcLibrary.Ends := ⟨Abc.sorted, Abc.acyclic, Abc.refs_not_cyclic, Abc.faithful.newNode⟩

/-- New pools of the library at two addresses. -/
def abcPools : Pools := ⟨⟨256, 16384, 2064, 2064, [], false⟩, ⟨256, 16384, 1050624, 1050624, [], false⟩⟩

theorem abcPools_new : Abc.newAst (heapAt 16 (by decide)) (heapAt 1048576 (by decide)) = some abcPools := by
  have nodes : PoolAllocator.new (heapAt 16 (by decide)) 256 16384 = some abcPools.nodes := by decide +kernel
  have raw : PoolAllocator.new (heapAt 1048576 (by decide)) 256 16384 = some abcPools.raw := by decide +kernel
  simp only [Abc.newAst, newPools, nodes, raw]
  rfl

/-- Every module is there. -/
def sampleHost : Host Abc.NodeType where
  libc := plainLibrary
  exitText _ := []
  loadPrinter _ _ := .ok ()
  pools _ := abcPools
  addr _ _ := 4096
  prettyFunction _ := []
  cycleError _ := []
  describe _ := "PoolAllocator".toList

def sampleModule (_ : CStr) : Except (List Char) Unit := .ok ()

section Runs
variable [DecidableEq ι] {lib : Library ι} {host : Host ι} {env : Env} {opts : Options} {load : CStr → Except (List Char) Unit}
  {arg : CStr} {args : List CStr} {name : CStr}

/-- With a type check, the program writes the types of its inputs up to the first one that fails, and that failure; it
goes through all when every input is the text of a well typed tree and every call finds its options. -/
theorem type_check_runs (ends : lib.Ends) (given : opts.args = arg :: args) (noHelp : opts.helpExtFunc = false)
    (chosen : opts.action.extFuncName = some name) (loads : load name = .ok ())
    (checks : ∀ k opt, k < opts.args.length → HasOptions host opts k opt → opt.action = .typeCheck) :
    ∃ n failure, Tells (Evaluates lib host (typeEvaluations lib) (resultLine (typeEvaluations lib)) env opts)
        (Rejects lib host (typeEvaluations lib) env opts) opts.args n failure
        (main env (lib.toExtension host load opts) opts { opts := opts.extState }) ∧
      (failure = none ↔ ∀ i arg', opts.args[i]? = some arg' → ∃ tree opt type, Parses env opts i arg' tree ∧
        HasOptions host opts i opt ∧ NodeTyped lib.ext.table (strictCasts opt) tree.root type) := by
  obtain ⟨n, failure, tells⟩ := @checking_tells _ _ lib host ends load env opts arg args name given noHelp chosen loads checks
  refine ⟨n, failure, tells, (tells.succeeds_iff evaluates_apart).trans ?_⟩
  refine forall_congr' fun i => forall_congr' fun arg' => imp_congr_right fun _ => ?_
  constructor
  · rintro ⟨out, tree, opt, v, parses, has, valued, -⟩
    obtain ⟨type, typed⟩ := (types_checked_iff ends.sorted ends.acyclic tree).mp ⟨v, valued⟩
    exact ⟨tree, opt, type, parses, has, typed⟩
  · rintro ⟨tree, opt, type, parses, has, typed⟩
    obtain ⟨v, valued⟩ := (types_checked_iff ends.sorted ends.acyclic tree).mpr ⟨type, typed⟩
    exact ⟨_, tree, opt, v, parses, has, valued, rfl⟩

/-- Two inputs, with `-r` in the arguments of the library. -/
theorem type_check_runs_two :
    let opts : Options :=
      { action := .extFunc "abc".toList, args := ["A()".toList, "(".toList], extArgs := ["abc".toList, "-r".toList] }
    ∃ n failure, Tells
        (Evaluates abcLibrary sampleHost (typeEvaluations abcLibrary) (resultLine (typeEvaluations abcLibrary)) (sampleEnv []) opts)
        (Rejects abcLibrary sampleHost (typeEvaluations abcLibrary) (sampleEnv []) opts) opts.args n failure
        (main (sampleEnv []) (abcLibrary.toExtension sampleHost sampleModule opts) opts { opts := opts.extState }) ∧
      (failure = none ↔ ∀ i arg', opts.args[i]? = some arg' → ∃ tree opt type, Parses (sampleEnv []) opts i arg' tree ∧
        HasOptions sampleHost opts i opt ∧ NodeTyped Abc.table (strictCasts opt) tree.root type) := by
  intro opts
  have checks : ∀ k opt, k < opts.args.length → HasOptions sampleHost opts k opt → opt.action = .typeCheck := by
    rintro k opt inside ⟨left, s', before, returned⟩
    match k, inside with
    | 0, _ =>
      cases before
      cases returned
      rfl
    | 1, _ =>
      cases before
      cases returned
      rfl
  exact @type_check_runs _ _ abcLibrary sampleHost (sampleEnv []) opts sampleModule _ _ _ abcLibrary_ends rfl rfl rfl rfl checks

/-- With a build, the literals of the trees need values too, and the objects room in the pools of their calls. -/
theorem ast_build_runs (ends : lib.Ends) (given : opts.args = arg :: args) (noHelp : opts.helpExtFunc = false)
    (chosen : opts.action.extFuncName = some name) (loads : load name = .ok ())
    (builds : ∀ k opt, k < opts.args.length → HasOptions host opts k opt → opt.action = .astBuild) :
    ∃ n failure, Tells (Evaluates lib host (nodeEvaluations lib host) (resultLine (nodeEvaluations lib host)) env opts)
        (Rejects lib host (nodeEvaluations lib host) env opts) opts.args n failure
        (main env (lib.toExtension host load opts) opts { opts := opts.extState }) ∧
      (failure = none ↔ ∀ i arg', opts.args[i]? = some arg' → ∃ tree opt, Parses env opts i arg' tree ∧
        HasOptions host opts i opt ∧ Builds lib.ext.table (strictCasts opt) lib.classes (host.pools i) tree) := by
  obtain ⟨n, failure, tells⟩ := @building_tells _ _ lib host ends load env opts arg args name given noHelp chosen loads builds
  refine ⟨n, failure, tells, (tells.succeeds_iff evaluates_apart).trans ?_⟩
  have on (opt : ExtOptions) (k : Nat) : (nodeEvaluations lib host opt k).maker =
      NodeMaker.on lib.ext.table (strictCasts opt) (demand lib.classes (host.pools k)) := nodeMakerOn_eq _ ends.newNode _
  refine forall_congr' fun i => forall_congr' fun arg' => imp_congr_right fun _ => ?_
  constructor
  · rintro ⟨out, tree, opt, v, parses, has, valued, -⟩
    rw [on] at valued
    exact ⟨tree, opt, parses, has, (builds_iff ends.sorted ends.acyclic tree).mp ⟨v, valued⟩⟩
  · rintro ⟨tree, opt, parses, has, builds'⟩
    obtain ⟨v, valued⟩ := (builds_iff ends.sorted ends.acyclic tree).mpr builds'
    rw [← on] at valued
    exact ⟨_, tree, opt, v, parses, has, valued, rfl⟩

/-- And with `-A`. -/
theorem ast_build_runs_two :
    let opts : Options :=
      { action := .extFunc "abc".toList, args := ["A()".toList, "(".toList], extArgs := ["abc".toList, "-A".toList] }
    ∃ n failure, Tells
        (Evaluates abcLibrary sampleHost (nodeEvaluations abcLibrary sampleHost)
          (resultLine (nodeEvaluations abcLibrary sampleHost)) (sampleEnv []) opts)
        (Rejects abcLibrary sampleHost (nodeEvaluations abcLibrary sampleHost) (sampleEnv []) opts) opts.args n failure
        (main (sampleEnv []) (abcLibrary.toExtension sampleHost sampleModule opts) opts { opts := opts.extState }) ∧
      (failure = none ↔ ∀ i arg', opts.args[i]? = some arg' → ∃ tree opt, Parses (sampleEnv []) opts i arg' tree ∧
        HasOptions sampleHost opts i opt ∧ Builds Abc.table (strictCasts opt) abcLibrary.classes abcPools tree) := by
  intro opts
  have builds : ∀ k opt, k < opts.args.length → HasOptions sampleHost opts k opt → opt.action = .astBuild := by
    rintro k opt inside ⟨left, s', before, returned⟩
    match k, inside with
    | 0, _ =>
      cases before
      cases returned
      rfl
    | 1, _ =>
      cases before
      cases returned
      rfl
  exact @ast_build_runs _ _ abcLibrary sampleHost (sampleEnv []) opts sampleModule _ _ _ abcLibrary_ends rfl rfl rfl rfl builds

end Runs

/-! The printer of a library behind itself. -/

section Pipe
variable {lib : Library ι} {host : Host ι} {opt : ExtOptions} {left : ExtState} {env : Env} {opts : Options}
  {load : CStr → Except (List Char) Unit} {arg : CStr} {name printer : CStr} {tree : Tree} {type : ι} {obj : Node ι}

/-- Without `trace_eval` nothing stands in front of a value. -/
theorem traceText_quiet (quiet : opt.traceEval = false) {V : Type} {evaluation : Evaluation ι V} (sound : evaluation.Sound lib)
    {v : V} (valued : (eval lib.ext.table evaluation.maker tree {}).1 = .ok v) : traceText lib host opt evaluation tree = [] := by
  have silent : tree.nodes.filter (traced false) = [] := by
    refine List.filter_eq_nil_iff.mpr fun node _ => ?_
    cases node <;> exact Bool.false_ne_true
  have adds : TraceAdds lib.ext.table evaluation.maker opt.traceEval tree {} :=
    eval_traces sound.typed sound.keeps (cacheValid_new lib.ext.table) tree
  have written := adds.whole v valued
  rw [quiet, silent] at written
  rw [traceText, quiet, List.forall₂_nil_left_iff.mp written]
  rfl

/-- A single input with an object. -/
theorem printed_once [DecidableEq ι] (ends : lib.Ends) (given : opts.args = [arg]) (noHelp : opts.helpExtFunc = false)
    (chosen : opts.action.extFuncName = some name) (loads : load name = .ok ())
    (returned : objOptions host opts.parent opts.extState = .ok opt left) (action : opt.action = .printObj)
    (noHelp' : opt.helpExtFunc = false) (named : opt.extFuncName = some printer)
    (loads' : host.loadPrinter opt.homeDir printer = .ok ()) (quiet : opt.traceEval = false) (parses : Parses env opts 0 arg tree)
    (built : (eval lib.ext.table (nodeEvaluations lib host opt 0).maker tree {}).1 = .ok (.node type obj)) :
    (main env (lib.toExtension host load opts) opts { opts := opts.extState }).1 = .status 0 ∧
    (main env (lib.toExtension host load opts) opts { opts := opts.extState }).2.cout = lib.ext.print obj ∧
    (main env (lib.toExtension host load opts) opts { opts := opts.extState }).2.cerr = [] := by
  have has : HasOptions host opts 0 opt := ⟨left, _, rfl, returned⟩
  obtain ⟨n, failure, tells⟩ := @objects_tell _ _ lib host ends load env opts arg [] name given noHelp chosen loads (by
    intro k opt' inside has'
    obtain rfl : k = 0 := by simpa [given] using inside
    obtain rfl := has.unique has'
    exact ⟨action, noHelp', printer, named, loads'⟩)
  rw [given] at tells
  have silent : traceText lib host opt (nodeEvaluations lib host opt 0) tree = [] :=
    traceText_quiet quiet (nodeEvaluation_sound ends opt 0) built
  refine tells.of_single evaluates_apart ⟨tree, opt, _, parses, has, built, by rw [silent]; rfl⟩ ?_
  rintro out ⟨tree', opt', v, parses', has', built', rfl⟩
  cases parses.unique parses'
  obtain rfl := has.unique has'
  cases built.symm.trans built'
  rw [silent]
  rfl

end Pipe

/-- The program behind a pipe from itself: an object of a library that was printed is built from its text, under relaxed
casts, and printed as it was. -/
theorem print_obj_stable [DecidableEq ι] {lib : Library ι} {host : Host ι} {Good : ι → Prop} (faithful : Faithful lib.ext Good)
    (printed : ∀ i, ¬ Unfold.Cyclic lib.ext.table.refs i) {env : Env} {opts : Options}
    {load : CStr → Except (List Char) Unit} {arg name printer : CStr} (given : opts.args = [arg])
    (noHelp : opts.helpExtFunc = false) (chosen : opts.action.extFuncName = some name) (loads : load name = .ok ())
    {opt : ExtOptions} {left : ExtState} (returned : objOptions host opts.parent opts.extState = .ok opt left)
    (action : opt.action = .printObj) (noHelp' : opt.helpExtFunc = false) (named : opt.extFuncName = some printer)
    (loads' : host.loadPrinter opt.homeDir printer = .ok ()) (relaxed : opt.castsType = .relaxedCasts)
    (quiet : opt.traceEval = false) {tree : Tree} {type : ι} {obj : Node ι} (parses : Parses env opts 0 arg tree)
    (built : (eval lib.ext.table (lib.ext.nodeMakerOn false (demand lib.classes (host.pools 0))) tree {}).1 =
      .ok (.node type obj)) (good : Good obj.astType) (quotable : ∀ text ∈ obj.charPtrs, Quotable text)
    (room : Fits env { opts with inputType := .file, args := [['-']] } 0 (lib.ext.print obj)) :
    let run := main env (lib.toExtension host load opts) opts { opts := opts.extState }
    let again : Options := { opts with inputType := .file, args := [['-']] }
    let run' := main { env with stdin := .ok run.2.cout } (lib.toExtension host load again) again { opts := again.extState }
    run.1 = .status 0 ∧ run.2.cout = lib.ext.print obj ∧ run.2.cerr = [] ∧
      run'.1 = .status 0 ∧ run'.2.cout = run.2.cout ∧ run'.2.cerr = [] := by
  intro run again run'
  have ends : lib.Ends := ⟨faithful.sorted, faithful.acyclic, printed, faithful.newNode⟩
  have mode : strictCasts opt = false := by rw [strictCasts, relaxed]; rfl
  have maker : (nodeEvaluations lib host opt 0).maker = lib.ext.nodeMakerOn false (demand lib.classes (host.pools 0)) := by
    change lib.ext.nodeMakerOn (strictCasts opt) _ = _
    rw [mode]
  obtain ⟨ended, written, silent⟩ := printed_once ends given noHelp chosen loads returned action noHelp' named loads' quiet
    parses (by rw [maker]; exact built)
  -- the pools serve the same object again
  have empty : Serve lib.classes (host.pools 0) ({} : MakerState ι).asked := rfl
  have on := nodeMakerOn_eq false faithful.newNode (demand lib.classes (host.pools 0))
  rw [on, eval_demand_iff empty] at built
  have ok := (eval_object built.1).1
  obtain ⟨tree', type', parsed, rebuilt⟩ := rebuilds_of_quotable faithful ok good quotable .file
  rw [nodeMaker_eq false faithful.newNode] at rebuilt
  have content : run.2.cout = lib.ext.print obj := written
  have parses' : Parses { env with stdin := .ok run.2.cout } again 0 ['-'] tree' :=
    ⟨lib.ext.print obj, by rw [content]; rfl, room, parsed⟩
  obtain ⟨ended', written', silent'⟩ := @printed_once _ lib host opt left { env with stdin := .ok run.2.cout } again load
    ['-'] name printer tree' type' obj _ ends rfl noHelp chosen loads returned action noHelp' named loads' quiet parses'
    (by rw [maker, on]; exact (eval_demand_iff empty).mpr ⟨rebuilt, built.2⟩)
  exact ⟨ended, written, silent, ended', written'.trans content.symm, silent'⟩

/-- `B(.a=A())`. -/
def sampleB : Node Abc.NodeType := .mk .b [.node (.mk .a [])]

theorem sampleB_ok : NodeOk Abc.table sampleB := .mk (.cons (.node ⟨0, rfl⟩ (.mk .nil)) .nil)

theorem print_obj_stable_b :
    let opts : Options :=
      { action := .extFunc "abc".toList, args := [Abc.library.print sampleB], extArgs := ["abc".toList, "-o".toList, "-r".toList] }
    let run := main (sampleEnv []) (abcLibrary.toExtension sampleHost sampleModule opts) opts { opts := opts.extState }
    let again : Options := { opts with inputType := .file, args := [['-']] }
    let run' := main { sampleEnv [] with stdin := .ok run.2.cout } (abcLibrary.toExtension sampleHost sampleModule again) again
      { opts := again.extState }
    run.1 = .status 0 ∧ run.2.cout = Abc.library.print sampleB ∧ run.2.cerr = [] ∧
      run'.1 = .status 0 ∧ run'.2.cout = run.2.cout ∧ run'.2.cerr = [] := by
  intro opts run again run'
  have quotable : ∀ text ∈ sampleB.charPtrs, Quotable text := by decide
  obtain ⟨tree, type, parsed, built⟩ := rebuilds_of_quotable Abc.faithful sampleB_ok (by decide) quotable .text
  have room (type : InputType) : Fits (sampleEnv []) { opts with inputType := type } 0 (Abc.library.print sampleB) := by
    unfold Fits Pools.Fit
    cases type <;> decide +kernel
  have parses : Parses (sampleEnv []) opts 0 (Abc.library.print sampleB) tree := ⟨_, rfl, room .text, parsed⟩
  rw [nodeMaker_eq false Abc.faithful.newNode] at built
  have served : Serve abcLibrary.classes abcPools sampleB.requests := by decide +kernel
  have empty : Serve abcLibrary.classes abcPools ({} : MakerState Abc.NodeType).asked := rfl
  have built' : (eval Abc.table (Abc.library.nodeMakerOn false (demand abcLibrary.classes abcPools)) tree {}).1 =
      .ok (.node type sampleB) := by
    rw [nodeMakerOn_eq false Abc.faithful.newNode]
    exact (eval_demand_iff empty).mpr ⟨built, served⟩
  obtain ⟨opt, left, returned, action, noHelp, named, relaxed, quiet⟩ : ∃ opt left,
      objOptions sampleHost opts.parent opts.extState = .ok opt left ∧ opt.action = .printObj ∧ opt.helpExtFunc = false ∧
      opt.extFuncName = some "printer::print".toList ∧ opt.castsType = .relaxedCasts ∧ opt.traceEval = false :=
    ⟨_, _, rfl, rfl, rfl, rfl, rfl, rfl⟩
  exact @print_obj_stable _ _ abcLibrary sampleHost _ Abc.faithful Abc.refs_not_cyclic (sampleEnv []) opts sampleModule _ _ _
    rfl rfl rfl rfl opt left returned action noHelp named rfl relaxed quiet tree type sampleB parses built' (by decide) quotable
    (room .file)

end Program
end CxxpyTree
