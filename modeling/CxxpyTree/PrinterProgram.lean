import CxxpyTree.ExtOptions
import CxxpyTree.ProgramRun

/-! The program with the module `printer`, tree/printer.cpp. -/

namespace CxxpyTree
namespace Program
open Machine

inductive PrintAction where
  | printAst
  | dumpAst
  | prettyAst
  | terseAst
  deriving DecidableEq, Repr

/-- The members of its own `options_t` that `exec` reads; no action stands for `ext_func_action`. -/
structure PrintOptions where
  action : Option PrintAction := some .printAst
  indentDots : Bool := false
  deriving DecidableEq, Repr

inductive PrinterFunc where
  | printer
  | print
  | dump
  | prettyPrint
  | tersePrint
  deriving DecidableEq, Repr

def PrinterFunc.act : PrinterFunc → Option PrintAction
  | .printer => none
  | .print => some .printAst
  | .dump => some .dumpAst
  | .prettyPrint => some .prettyAst
  | .tersePrint => some .terseAst

def funcs (dots : Bool) (ast : Store.AST) : PrintAction → Option (List Char)
  | .printAst => Stored.printAst true ast dots
  | .dumpAst => Stored.printAst false ast dots
  | .prettyAst => Stored.Source.printAst true ast dots
  | .terseAst => Stored.Source.printAst false ast dots

structure PrinterStatics (σ : Type) where
  loader : Loader PrinterFunc := {}
  opts : σ
  deriving DecidableEq, Repr

section Printer
variable {σ : Type} (options : EStateM OptsStop σ PrintOptions)

def loaderSlot : Slot (PrinterStatics σ) (Loader PrinterFunc) where
  get s := s.loader
  set loader s := { s with loader }

def optsSlot : Slot (PrinterStatics σ) σ where
  get s := s.opts
  set opts s := { s with opts }

def printerError (text : String) : Main (PrinterStatics σ) Unit :=
  extError "tree".toList "tree-printer".toList text.toList

def exec (ast : Option Store.AST) (act : Option PrintAction) : Main (PrinterStatics σ) Int := do
  let opt ← parseOptions optsSlot options
  match opt.action with
  | none => do
    printerError "extension functions are not supported"
    return 1
  | some action =>
    match ast with
    | none => do
      printerError "no input given"
      return 1
    | some ast =>
      match funcs opt.indentDots ast (act.getD action) with
      | none => throw .crash
      | some text => do
        write text
        return 0

/-- `options` is the parse of its own options, on its static object and `ext_argv`, and `load` finds the modules of
`home_dir`. -/
def printerExtension (load : CStr → Except (List Char) PrinterFunc) : Extension (PrinterStatics σ) PrinterFunc where
  slot := loaderSlot
  load := load
  call func _ ast := exec options ast func.act

end Printer

/-- What a print action writes for a tree. -/
def printTree (dots : Bool) (tree : Tree) : PrintAction → List Char
  | .printAst => BasicPrinter.print true dots tree
  | .dumpAst => BasicPrinter.print false dots tree
  | .prettyAst => BasicPrinter.Source.print true dots tree
  | .terseAst => BasicPrinter.Source.print false dots tree

theorem funcs_of_shows {ast : Store.AST} {tree : Tree} (shows_ : Stored.Shows ast tree) (dots : Bool) (action : PrintAction) :
    funcs dots ast action = some (printTree dots tree action) := by
  cases action with
  | printAst => exact shows_.printed true dots
  | dumpAst => exact shows_.printed false dots
  | prettyAst => exact shows_.reprinted true dots
  | terseAst => exact shows_.reprinted false dots

section Calls
variable {σ : Type} {options : EStateM OptsStop σ PrintOptions} {left : σ} {s : State (PrinterStatics σ)}

theorem exec_settled {opt : PrintOptions} (returned : options s.statics.opts = .ok opt left) {act : PrintAction}
    (supported : opt.action = some act) {ast : Store.AST} {tree : Tree} (shows_ : Stored.Shows ast tree)
    (given : Option PrintAction) : exec options (some ast) given s =
      .ok 0 { s with cout := s.cout ++ printTree opt.indentDots tree (given.getD act),
                     statics := { s.statics with opts := left } } := by
  unfold exec
  rw [bind_of_ok (parseOptions_ok optsSlot returned)]
  simp only [supported, funcs_of_shows shows_]
  rfl

theorem exec_balked {stop : OptsStop} (stopped : options s.statics.opts = .error stop left) {ast : Option Store.AST}
    {given : Option PrintAction} : exec options ast given s =
      .error stop.exc { s with cout := s.cout ++ stop.written, statics := { s.statics with opts := left } } := by
  unfold exec
  rw [bind_of_error (parseOptions_error optsSlot stopped)]
  rfl

end Calls

section Printing
variable {σ : Type} (env : Env) (opts : Options) (options : EStateM OptsStop σ PrintOptions) (start : σ) (func : PrinterFunc)

/-- Input `k` is the text of a tree, and the print of that is what is written. -/
def Prints (k : Nat) (arg : CStr) (out : List Char) : Prop :=
  ∃ tree opt act, Parses env opts k arg tree ∧ Settles options start k opt ∧ opt.action = some act ∧
    out = printTree opt.indentDots tree (func.act.getD act)

/-- The first input is the text of a tree. -/
def Begins : Prop := ∃ arg tree, opts.args[0]? = some arg ∧ Parses env opts 0 arg tree

/-- The state before input `k`: the function was loaded for the first of them. -/
structure Called (k : Nat) (s : State (PrinterStatics σ)) : Prop where
  silent : s.cerr = []
  loader : s.statics.loader = if k = 0 then {} else { func := some func, loads := 1 }
  settled : Batch.left options start k = some s.statics.opts
  begun : 0 < k → Begins env opts

/-- The state where a run stops. -/
structure Stopped (s : State (PrinterStatics σ)) : Prop where
  silent : s.cerr = []
  once : s.statics.loader.loads = 1 ∧ Begins env opts ∨ s.statics.loader.loads = 0 ∧ ¬ Begins env opts

variable {env opts options start func} {load : CStr → Except (List Char) PrinterFunc} {name arg : CStr} {args : List CStr}

theorem halts_apart (k : Nat) (arg : CStr) (out : List Char) (exc : Exc) (out' : List Char)
    (prints : Prints env opts options start func k arg out) : ¬ Halts options start k env opts arg exc out' := by
  obtain ⟨tree, opt, act, parses, settles, -⟩ := prints
  rintro (fails | ⟨_, _, _, balks, _⟩)
  · exact parses.not_fails fails.1
  · exact settles.not_balks balks

theorem Called.stopped {k : Nat} {arg : CStr} {exc : Exc} {s : State (PrinterStatics σ)}
    (called : Called env opts options start func k s) (there : opts.args[k]? = some arg) (fails : Fails env opts k arg exc) :
    Stopped env opts s := by
  refine ⟨called.silent, ?_⟩
  rw [called.loader]
  cases k with
  | zero =>
    refine .inr ⟨rfl, ?_⟩
    rintro ⟨arg', tree, there', parses⟩
    cases there.symm.trans there'
    exact parses.not_fails fails
  | succ k => exact .inl ⟨rfl, called.begun (Nat.succ_pos k)⟩

variable (chosen : opts.action.extFuncName = some name) (loads : load name = .ok func)
include chosen loads

/-- The call for input `k`, over the parse of its options. -/
theorem runAst_printer {k : Nat} {ast : Option Store.AST} {s : State (PrinterStatics σ)}
    (called : Called env opts options start func k s) : runAst (printerExtension options load) opts k ast s =
      exec options ast func.act { s with statics := { s.statics with loader := { func := some func, loads := 1 } } } := by
  obtain ⟨cout, cerr, loader, left⟩ := s
  have held : loader = if k = 0 then {} else { func := some func, loads := 1 } := called.loader
  have own : ∀ other ∈ loader.func, other = func := by
    rw [held]
    split
    · rintro _ ⟨⟩
    · rintro _ ⟨⟩
      rfl
  have loaded : loaderSlot.loaded func ⟨loader, left⟩ = ⟨{ func := some func, loads := 1 }, left⟩ := by
    subst held
    unfold Slot.loaded loaderSlot
    by_cases first : k = 0
    · simp only [if_pos first]
      rfl
    · simp only [if_neg first]
      rfl
  have entered := @runAst_eq _ _ name func (.mk cout cerr (PrinterStatics.mk loader left)) (printerExtension options load) opts k ast
    chosen loads own
  rw [entered]
  change exec options ast func.act ⟨cout, cerr, loaderSlot.loaded func ⟨loader, left⟩⟩ = _
  rw [loaded]

theorem printing_tells (noHelp : opts.helpExtFunc = false) (given : opts.args = arg :: args)
    (supported : ∀ k opt, k < opts.args.length → Settles options start k opt → opt.action.isSome) :
    ∃ n failure, Tells (Prints env opts options start func) (fun k => Halts options start k env opts) opts.args n failure
        (main env (printerExtension options load) opts { opts := start }) ∧
      ((main env (printerExtension options load) opts { opts := start }).2.statics.loader.loads = 1 ∧ Begins env opts ∨
        (main env (printerExtension options load) opts { opts := start }).2.statics.loader.loads = 0 ∧ ¬ Begins env opts) := by
  have entered : body env (printerExtension options load) opts =
      mainLoop env (printerExtension options load) opts 0 opts.args := by
    rw [body, noHelp, given]
    rfl
  have follows : Batch.Follows State.cout (fun k s => Called env opts options start func k s) (fun _ => Stopped env opts)
      (Prints env opts options start func) (fun k => Halts options start k env opts) 0 opts.args (· = 0)
      (body env (printerExtension options load) opts) { statics := { opts := start } } := by
    rw [entered]
    refine mainLoop_follows ?_ (fun k arg exc s there called fails => ⟨.inl ⟨fails, rfl⟩, called.stopped there fails⟩) rfl
      ⟨rfl, rfl, rfl, fun none => absurd none (Nat.lt_irrefl 0)⟩
    intro k arg ast tree s there called parses shows_
    have entered' := @runAst_printer _ _ _ _ _ _ load name chosen loads k (some ast) s called
    let s₁ : State (PrinterStatics σ) := ⟨s.cout, s.cerr, { func := some func, loads := 1 }, s.statics.opts⟩
    have begun : Begins env opts := by
      cases k with
      | zero => exact ⟨arg, tree, there, parses⟩
      | succ k => exact called.begun (Nat.succ_pos k)
    have inside := (List.getElem?_eq_some_iff.mp there).1
    cases ran : options s.statics.opts with
    | ok opt left =>
      obtain ⟨act, isSome⟩ := Option.isSome_iff_exists.mp (supported k opt inside ⟨left, _, called.settled, ran⟩)
      refine (wp_of_ok (entered'.trans (exec_settled (s := s₁) ran isSome shows_ func.act))).mpr
        ⟨rfl, _, ⟨tree, opt, act, parses, ⟨left, _, called.settled, ran⟩, isSome, rfl⟩, rfl, called.silent, ?_,
        Batch.left_succ called.settled ran, fun _ => begun⟩
      rw [if_neg (Nat.succ_ne_zero k)]
    | error stop left =>
      refine (wp_of_error (entered'.trans (exec_balked (s := s₁) ran))).mpr
        ⟨_, .inr ⟨tree, stop, parses, ⟨left, _, called.settled, ran⟩, rfl, rfl⟩, rfl, called.silent, .inl ⟨rfl, begun⟩⟩
  obtain ⟨n, failure, s, tells, same, held⟩ := main_tells follows (fun _ _ called => called.silent)
    fun _ _ stopped => stopped.silent
  refine ⟨n, failure, tells, ?_⟩
  rw [← same]
  cases failure with
  | some exc => exact held.once
  | none =>
    have whole : n = opts.args.length := tells.1.length
    have some_ : 0 < n := by
      rw [whole, given]
      exact Nat.succ_pos _
    have loader := held.loader
    rw [if_neg (Nat.ne_of_gt some_)] at loader
    exact .inl ⟨by rw [loader], held.begun some_⟩

end Printing

/-- With a function of the printer, the program prints the trees of its inputs up to the first one that fails, or whose
call fails on its options, and that failure. The function is loaded once, behind the parse of the first input. -/
theorem main_runs {σ : Type} {env : Env} {opts : Options} {options : EStateM OptsStop σ PrintOptions} {start : σ}
    {load : CStr → Except (List Char) PrinterFunc} {arg : CStr} {args : List CStr} (given : opts.args = arg :: args)
    (noHelp : opts.helpExtFunc = false) {name : CStr} (chosen : opts.action.extFuncName = some name) {func : PrinterFunc}
    (loads : load name = .ok func) (supported : ∀ k opt, k < opts.args.length → Settles options start k opt → opt.action.isSome) :
    let run := main env (printerExtension options load) opts { opts := start }
    (∃ n failure, Tells (Prints env opts options start func) (fun k => Halts options start k env opts) opts.args n failure run ∧
      (failure = none ↔ ∀ i arg', opts.args[i]? = some arg' →
        (∃ tree, Parses env opts i arg' tree) ∧ ∃ opt, Settles options start i opt)) ∧
    run.2.statics.loader.loads ≤ 1 ∧ (run.2.statics.loader.loads = 1 ↔ ∃ tree, Parses env opts 0 arg tree) := by
  intro run
  obtain ⟨n, failure, tells, once⟩ :=
    @printing_tells σ env opts options start func load name arg args chosen loads noHelp given supported
  have begins : Begins env opts ↔ ∃ tree, Parses env opts 0 arg tree := by
    constructor
    · rintro ⟨arg', tree, there, parses⟩
      rw [given] at there
      cases there
      exact ⟨tree, parses⟩
    · rintro ⟨tree, parses⟩
      exact ⟨arg, tree, by rw [given]; rfl, parses⟩
  rw [begins] at once
  have loaded : run.2.statics.loader.loads ≤ 1 ∧ (run.2.statics.loader.loads = 1 ↔ ∃ tree, Parses env opts 0 arg tree) := by
    rcases once with ⟨loads, parses⟩ | ⟨loads, never⟩
    · exact ⟨Nat.le_of_eq loads, iff_of_true loads parses⟩
    · have zero : run.2.statics.loader.loads = 0 := loads
      exact ⟨by omega, iff_of_false (by omega) never⟩
  refine ⟨⟨n, failure, tells, (tells.succeeds_iff halts_apart).trans ?_⟩, loaded⟩
  refine forall_congr' fun i => forall_congr' fun arg' => imp_congr_right fun there => ?_
  constructor
  · rintro ⟨out, tree, opt, act, parses, settles, -⟩
    exact ⟨⟨tree, parses⟩, opt, settles⟩
  · rintro ⟨⟨tree, parses⟩, opt, settles⟩
    have inside := (List.getElem?_eq_some_iff.mp there).1
    obtain ⟨act, isSome⟩ := Option.isSome_iff_exists.mp (supported i opt inside settles)
    exact ⟨_, tree, opt, act, parses, settles, isSome, rfl⟩

/-- The function of the printer behind an action. -/
def Action.func : Action → Option PrinterFunc
  | .print => some .print
  | .dump => some .dump
  | .prettyPrint => some .prettyPrint
  | .tersePrint => some .tersePrint
  | _ => none

/-- The module `printer` is there, with its functions under their names. -/
def Resolves (load : CStr → Except (List Char) PrinterFunc) : Prop :=
  ∀ (action : Action) (func : PrinterFunc), action.func = some func →
    ∃ name, action.extFuncName = some name ∧ load name = .ok func

theorem storeAt_made (_ : Nat) : ∃ nodeHeap rawHeap, Store.new nodeHeap rawHeap = some storeAt :=
  ⟨_, _, storeAt_new⟩

theorem three_lt_width : 3 < 64 := by decide

/-- An environment where every file has the same content. -/
def sampleEnv (file : List Char) : Env where
  layout := ⟨fun _ => 24, fun _ => ⟨3, three_lt_width⟩⟩
  ast _ := storeAt
  made := storeAt_made
  readFile _ _ := .ok file
  stdin := .ok file
  describe _ := "PoolAllocator".toList

def sampleLoad (name : CStr) : Except (List Char) PrinterFunc :=
  if name = "printer::print".toList then .ok .print
  else if name = "printer::dump".toList then .ok .dump
  else if name = "printer::pretty_print".toList then .ok .prettyPrint
  else if name = "printer::terse_print".toList then .ok .tersePrint
  else .error "failed loading module".toList

theorem sampleLoad_resolves : Resolves sampleLoad := by
  intro action func same
  cases action with
  | extFunc => cases same
  | noAction => cases same
  | print | dump | prettyPrint | tersePrint =>
    cases same
    exact ⟨_, rfl, rfl⟩

/-- A parse of arguments without options, which leaves a null pointer in place of the first `--`. -/
def sampleOptions : EStateM OptsStop (List (Option CStr)) PrintOptions := do
  let args ← get
  match findDashes args with
  | .error _ => throw .crash
  | .ok ptr => do
    set (args.set ptr none)
    return {}

theorem sampleOptions_settles {args left : List (Option CStr)} {opt : PrintOptions}
    (returned : sampleOptions args = .ok opt left) : opt = {} := by
  unfold sampleOptions at returned
  rw [get_bind] at returned
  cases found : findDashes args with
  | error stop =>
    rw [found] at returned
    cases returned
  | ok ptr =>
    rw [found] at returned
    cases returned
    rfl

/-- Two inputs, with a `--` in the arguments of the printer. -/
theorem main_runs_two :
    let opts : Options := { args := ["A()".toList, "A()".toList], extArgs := ["printer::pretty_print".toList, dashes] }
    let start := opts.extArgs.map some
    let run := main (sampleEnv []) (printerExtension sampleOptions sampleLoad) opts { opts := start }
    (∃ n failure, Tells (Prints (sampleEnv []) opts sampleOptions start .prettyPrint)
        (fun k => Halts sampleOptions start k (sampleEnv []) opts) opts.args n failure run ∧
      (failure = none ↔ ∀ i arg', opts.args[i]? = some arg' →
        (∃ tree, Parses (sampleEnv []) opts i arg' tree) ∧ ∃ opt, Settles sampleOptions start i opt)) ∧
    run.2.statics.loader.loads ≤ 1 ∧
      (run.2.statics.loader.loads = 1 ↔ ∃ tree, Parses (sampleEnv []) opts 0 "A()".toList tree) := by
  intro opts start
  obtain ⟨name, chosen, loads⟩ := sampleLoad_resolves .prettyPrint .prettyPrint rfl
  have supported : ∀ k opt, k < opts.args.length → Settles sampleOptions start k opt → opt.action.isSome := by
    rintro k opt - ⟨left, s', -, returned⟩
    rw [sampleOptions_settles returned]
    rfl
  exact @main_runs _ (sampleEnv []) opts sampleOptions start sampleLoad _ _ rfl rfl name chosen .prettyPrint loads supported

/-! How any run of the program with the printer comes to its end. -/

section Ends
variable {σ : Type} {options : EStateM OptsStop σ PrintOptions} {start : σ} {load : CStr → Except (List Char) PrinterFunc}
  {opts : Options} {ast : Option Store.AST} {k : Nat}

def LoadedOnce (s : PrinterStatics σ) : Prop := s.loader.loads ≤ 1

/-- Before call `k`, the function was loaded once if it was loaded. -/
structure Unloaded (options : EStateM OptsStop σ PrintOptions) (start : σ) (k : Nat) (s : PrinterStatics σ) : Prop where
  once : LoadedOnce s
  never : s.loader.func = none → s.loader.loads = 0
  settled : Batch.left options start k = some s.opts

theorem exec_returns {fatal : Prop} {s : State (PrinterStatics σ)} (silent : s.cerr = []) (once : LoadedOnce s.statics)
    (loaded : s.statics.loader.func = none → s.statics.loader.loads = 0)
    (settled : Batch.left options start k = some s.statics.opts) (bad : Balks options start k .crash → fatal)
    (shown : ∀ node ∈ ast, ∃ tree, Stored.Shows node tree) (given : Option PrintAction) :
    wp (exec options ast given) (Returns (Unloaded options start (k + 1)) LoadedOnce)
      (Stops fatal LoadedOnce) s := by
  cases ran : options s.statics.opts with
  | error stop left =>
    refine (wp_of_error (exec_balked ran)).mpr ⟨?_, silent, once⟩
    cases stop with
    | error what => exact .inl rfl
    | exit written => exact .inr (.inl rfl)
    | crash => exact .inr (.inr ⟨rfl, bad ⟨left, _, settled, ran⟩⟩)
  | ok opt left =>
    have parsed := parseOptions_ok optsSlot ran
    unfold exec
    refine wp_bind.mpr ((wp_of_ok parsed).mpr ?_)
    cases opt.action with
    | none => exact extError_returns once
    | some action =>
      cases ast with
      | none => exact extError_returns once
      | some node =>
        obtain ⟨tree, shows_⟩ := shown node rfl
        simp only [funcs_of_shows shows_]
        exact .inl ⟨rfl, silent, once, loaded, Batch.left_succ settled ran⟩

theorem runAst_returns {fatal : Prop} {s : State (PrinterStatics σ)} (silent : s.cerr = [])
    (held : Unloaded options start k s.statics) (bad : ∀ k, Balks options start k .crash → fatal)
    (shown : ∀ node ∈ ast, ∃ tree, Stored.Shows node tree) (named : opts.action.extFuncName.isSome) :
    wp (runAst (printerExtension options load) opts k ast) (Returns (Unloaded options start (k + 1)) LoadedOnce)
      (Stops fatal LoadedOnce) s := by
  obtain ⟨name, chosen⟩ := Option.isSome_iff_exists.mp named
  rw [runAst, chosen]
  simp only [runExtFunc, wp_bind, wp_get, printerExtension, loaderSlot]
  cases loaded : s.statics.loader.func with
  | some func =>
    exact exec_returns silent held.once held.never held.settled (bad k) shown func.act
  | none =>
    have once : s.statics.loader.loads + 1 ≤ 1 := by rw [held.never loaded]
    cases load name with
    | error what => exact ⟨.inl rfl, silent, once⟩
    | ok func =>
      let s₁ : State (PrinterStatics σ) :=
        ⟨s.cout, s.cerr, { func := some func, loads := s.statics.loader.loads + 1 }, s.statics.opts⟩
      exact exec_returns (s := s₁) silent once (fun none => absurd none (Option.some_ne_none func)) held.settled (bad k) shown
        func.act

end Ends

/-- The program succeeds in silence or fails with a message, and it crashes at most where the standard input is named
twice or where a parse of the options of the printer meets a null pointer. -/
theorem main_ends {σ : Type} (env : Env) (options : EStateM OptsStop σ PrintOptions) (start : σ)
    (load : CStr → Except (List Char) PrinterFunc) (opts : Options) :
    let run := main env (printerExtension options load) opts { opts := start }
    (run.1 = .status 0 ∧ run.2.cerr = [] ∨ run.1 = .status 1 ∧ run.2.cerr ≠ [] ∨
      run.1 = .crash ∧ (opts.rereads ∨ ∃ k, Balks options start k .crash)) ∧
    run.2.statics.loader.loads ≤ 1 := by
  let fatal := opts.rereads ∨ ∃ k, Balks options start k .crash
  have bad : ∀ k, Balks options start k .crash → fatal := fun k balks => .inr ⟨k, balks⟩
  have rereads : opts.rereads → fatal := .inl
  cases chosen : opts.action.extFuncName with
  | none =>
    have calls : ∀ k (s : State (PrinterStatics σ)) ast, s.cerr = [] → LoadedOnce s.statics →
        (∀ node ∈ ast, ∃ tree, Stored.Shows node tree) →
        wp (runAst (printerExtension options load) opts k ast) (Returns LoadedOnce LoadedOnce)
          (Stops fatal LoadedOnce) s := by
      intro k s ast silent once _
      rw [runAst, chosen]
      exact .inl ⟨rfl, silent, once⟩
    exact @main_ends_of_calls _ _ _ _ _ fatal (fun _ => LoadedOnce) LoadedOnce (fun _ _ once => once)
      calls rereads _ (Nat.zero_le 1)
  | some name =>
    have named : opts.action.extFuncName.isSome := by rw [chosen]; rfl
    exact @main_ends_of_calls _ _ _ _ _ fatal (Unloaded options start) LoadedOnce (fun _ _ held => held.once)
      (fun k s ast silent held shown => runAst_returns silent held bad shown named) rereads _ ⟨Nat.zero_le 1, fun _ => rfl, rfl⟩

/-! The program behind itself. -/

section Pipe
variable {σ : Type} {env : Env} {opts : Options} {options : EStateM OptsStop σ PrintOptions} {start left : σ}
  {opt : PrintOptions} {load : CStr → Except (List Char) PrinterFunc} {arg name : CStr} {func : PrinterFunc}
  {act : PrintAction} {tree : Tree}

/-- A single input that parses. -/
theorem main_of_single (given : opts.args = [arg]) (noHelp : opts.helpExtFunc = false)
    (chosen : opts.action.extFuncName = some name) (loads : load name = .ok func) (returned : options start = .ok opt left)
    (supported : opt.action = some act) (parses : Parses env opts 0 arg tree) :
    main env (printerExtension options load) opts { opts := start } =
      (.status 0, { cout := printTree opt.indentDots tree (func.act.getD act),
                    statics := { loader := { func := some func, loads := 1 }, opts := left } }) := by
  rcases parseInput_cases env opts 0 arg with ⟨ast, tree', ran, parses', shows_⟩ | ⟨exc, -, fails⟩
  · cases parses.unique parses'
    let s₁ : State (PrinterStatics σ) := { statics := { loader := { func := some func, loads := 1 }, opts := start } }
    have called : Called env opts options start func 0 { statics := { opts := start } } :=
      ⟨rfl, rfl, rfl, fun none => absurd none (Nat.lt_irrefl 0)⟩
    have entered := @runAst_printer _ _ _ _ _ _ load name chosen loads 0 (some ast) _ called
    have ran' := entered.trans (exec_settled (s := s₁) returned supported shows_ func.act)
    have whole : body env (printerExtension options load) opts { statics := { opts := start } } = .ok 0
        { cout := printTree opt.indentDots tree (func.act.getD act),
          statics := { loader := { func := some func, loads := 1 }, opts := left } } := by
      rw [body, noHelp, given, Bool.false_or, List.length_singleton, if_neg (by decide), mainLoop]
      simp only [ran]
      rw [bind_of_ok ran']
      rfl
    rw [main, whole]
  · exact absurd fails parses.not_fails

/-- A single input that fails is told. -/
theorem parses_of_single {S F : Type} {ext : Extension S F} {statics : S} (given : opts.args = [arg])
    (noHelp : opts.helpExtFunc = false) (succeeds : (main env ext opts statics).1 = .status 0) :
    ∃ tree, Parses env opts 0 arg tree := by
  rcases parseInput_cases env opts 0 arg with ⟨ast, tree, -, parses, -⟩ | ⟨exc, ran, fails⟩
  · exact ⟨tree, parses⟩
  · have stopped : body env ext opts { statics } = .error exc { statics } := by
      rw [body, noHelp, given, Bool.false_or, List.length_singleton, if_neg (by decide), mainLoop]
      simp only [ran]
      rfl
    rw [main, stopped] at succeeds
    cases fails with
    | short | refused => cases succeeds
    | unread failed =>
      rcases content_error failed with ⟨what, rfl⟩ | ⟨rfl, -⟩
      · cases succeeds
      · cases succeeds

/-- What was printed as a source parses to the same tree, in the same room. -/
theorem Parses.reprinted {env' : Env} {opts' : Options} {arg' : CStr} (parses : Parses env opts 0 arg tree)
    (printable : CxxpyTree.Printable tree.leaves) (same : env'.layout = env.layout) (same' : env'.ast = env.ast) (pretty : Bool)
    (read : content env' opts' 0 arg' = .ok (BasicPrinter.Source.print pretty false tree)) : Parses env' opts' 0 arg' tree := by
  obtain ⟨input, -, room, parsed⟩ := parses
  have again : parseText opts'.inputType (BasicPrinter.Source.print pretty false tree) = .ok tree := by
    rw [BasicPrinter.Source.print_plain]
    exact parseText_print printable pretty opts'.inputType
  refine ⟨_, read, ?_, again⟩
  rw [Fits, parseNodes_of_parsed parsed] at room
  rwa [Fits, parseNodes_of_parsed again, same, same']

end Pipe

/-- The program behind a pipe from itself: for a text that was reprinted, prettily or tersely and without dots, a second
run prints whatever it would have printed for the text itself. -/
theorem reprint_stable {σ : Type} {env : Env} {opts : Options} {options : EStateM OptsStop σ PrintOptions}
    {load : CStr → Except (List Char) PrinterFunc} {arg : CStr} (given : opts.args = [arg]) (noHelp : opts.helpExtFunc = false)
    (source : opts.action = .prettyPrint ∨ opts.action = .tersePrint) (resolves : Resolves load)
    {start start' left left' : σ} {opt opt' : PrintOptions} (returned : options start = .ok opt left)
    (returned' : options start' = .ok opt' left') (supported : opt.action.isSome) (supported' : opt'.action.isSome)
    (plain : opt.indentDots = false) {input : List Char} (read : content env opts 0 arg = .ok input) (clean : nul ∉ input)
    (safe : ∀ tree, parseText opts.inputType input = .ok tree →
      ∀ body, Leaf.lexeme .str body ∈ tree.leaves → bareApostrophe body = false)
    (succeeds : (main env (printerExtension options load) opts { opts := start }).1 = .status 0) {action : Action}
    {func : PrinterFunc} (printing : action.func = some func) :
    main { env with stdin := .ok (main env (printerExtension options load) opts { opts := start }).2.cout }
      (printerExtension options load) { opts with action, inputType := .file, args := [['-']] } { opts := start' } =
    main env (printerExtension options load) { opts with action } { opts := start' } := by
  obtain ⟨act, supported⟩ := Option.isSome_iff_exists.mp supported
  obtain ⟨act', supported'⟩ := Option.isSome_iff_exists.mp supported'
  obtain ⟨pretty, func₀, firstFunc, prints⟩ : ∃ pretty func₀, opts.action.func = some func₀ ∧ ∀ tree,
      printTree false tree (func₀.act.getD act) = BasicPrinter.Source.print pretty false tree := by
    rcases source with same | same <;> rw [same]
    · exact ⟨true, .prettyPrint, rfl, fun _ => rfl⟩
    · exact ⟨false, .tersePrint, rfl, fun _ => rfl⟩
  obtain ⟨name₀, chosen₀, loads₀⟩ := resolves _ _ firstFunc
  obtain ⟨name, chosen, loads⟩ := resolves _ _ printing
  -- the first run has printed the tree of the text
  obtain ⟨tree, parses⟩ := parses_of_single given noHelp succeeds
  have printable : CxxpyTree.Printable tree.leaves := by
    obtain ⟨input', read', -, parsed⟩ := parses
    cases read.symm.trans read'
    exact fun leaf member => (lexed_of_parseText clean parsed leaf member).printable fun body same =>
      safe tree parsed body (same ▸ member)
  have ended := main_of_single given noHelp chosen₀ loads₀ returned supported parses
  have written : (main env (printerExtension options load) opts { opts := start }).2.cout =
      BasicPrinter.Source.print pretty false tree := by
    rw [ended, plain]
    exact prints tree
  -- a second run has the same tree to print
  have direct : Parses env { opts with action } 0 arg tree := parses
  have behind : Parses
      { env with stdin := .ok (main env (printerExtension options load) opts { opts := start }).2.cout }
      { opts with action, inputType := .file, args := [['-']] } 0 ['-'] tree :=
    parses.reprinted printable rfl rfl pretty (congrArg Except.ok written)
  have once := @main_of_single _ env { opts with action } options start' left' opt' load arg name func act' tree given noHelp
    chosen loads returned' supported' direct
  have again := @main_of_single _ _ { opts with action, inputType := .file, args := [['-']] } options start' left' opt' load
    ['-'] name func act' tree rfl noHelp chosen loads returned' supported' behind
  exact Eq.trans again once.symm

theorem reprint_stable_nested :
    let env := sampleEnv []
    let opts : Options := { args := ["A(.a=B())".toList ++ [newline]], extArgs := ["printer::pretty_print".toList] }
    let start := opts.extArgs.map some
    let start' := ["printer::terse_print".toList].map some
    main { env with stdin := .ok (main env (printerExtension sampleOptions sampleLoad) opts { opts := start }).2.cout }
      (printerExtension sampleOptions sampleLoad)
      { opts with action := .tersePrint, inputType := .file, args := [['-']] } { opts := start' } =
    main env (printerExtension sampleOptions sampleLoad) { opts with action := .tersePrint } { opts := start' } := by
  intro env opts start start'
  have room : Fits env opts 0 ("A(.a=B())".toList ++ [newline]) := by
    unfold Fits Pools.Fit
    decide +kernel
  have parses : Parses env opts 0 ("A(.a=B())".toList ++ [newline]) nestedTree := ⟨_, rfl, room, parseText_nested⟩
  obtain ⟨name, chosen, loads⟩ := sampleLoad_resolves .prettyPrint .prettyPrint rfl
  have returned : sampleOptions start = .ok {} start := rfl
  have returned' : sampleOptions start' = .ok {} start' := rfl
  have ended := @main_of_single _ env opts sampleOptions start start {} sampleLoad _ name _ .printAst _ rfl rfl chosen loads
    returned rfl parses
  have succeeds : (main env (printerExtension sampleOptions sampleLoad) opts { opts := start }).1 = .status 0 := congrArg Prod.fst ended
  refine @reprint_stable _ env opts sampleOptions sampleLoad _ rfl rfl (.inl rfl) sampleLoad_resolves start start' _ _ _ _
    returned returned' rfl rfl rfl _ rfl (by decide) ?_ succeeds .tersePrint _ rfl
  intro tree parsed body member
  cases parsed.symm.trans parseText_nested
  simp [nestedTree, Tree.leaves, TreeNode.leaves, NodeName.leaves, NodeArgs.leaves, nodeArgListLeaves, NodeArg.leaves,
    ArgName.leaves, ArgValue.leaves] at member

end Program
end CxxpyTree
