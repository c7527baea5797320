import CxxpyTree.DebugFlag
import CxxpyTree.ErrorPosition
import CxxpyTree.Lib.Batch
import CxxpyTree.Program

/-! Whole runs of the program, told by the texts and the trees of its inputs. -/

namespace CxxpyTree
namespace Program
open Machine

variable {S F : Type} (env : Env) (opts : Options)

/-- There is room for the nodes that the text of input `k` makes. -/
def Fits (k : Nat) (input : List Char) : Prop := (env.ast k).pools.Fit env.layout (parseNodes opts.inputType input)

/-- Input `k` is read, has room and is the text of a tree. -/
def Parses (k : Nat) (arg : CStr) (tree : Tree) : Prop :=
  ∃ input, content env opts k arg = .ok input ∧ Fits env opts k input ∧ parseText opts.inputType input = .ok tree

/-- Input `k` is not: it cannot be read, a pool is too small, or the parser finds an error. -/
inductive Fails (k : Nat) (arg : CStr) : Exc → Prop where
  | unread {exc} (failed : content env opts k arg = .error exc) : Fails k arg exc
  | short {input what} (read : content env opts k arg = .ok input) (full : ¬ Fits env opts k input) :
    Fails k arg (.exception (env.describe (.alloc (.badAlloc what))))
  | refused {input err thrown} (read : content env opts k arg = .ok input) (room : Fits env opts k input)
    (failed : parseText opts.inputType input = .error (.error err))
    (shown : verror opts.verbose (inputName opts arg) (Input.init opts.inputType input).rest err.pos err.msg = .ok thrown) :
    Fails k arg (.parserError thrown)

/-- Input `k` fails, and nothing is written for it. -/
def FailsSilently (k : Nat) (arg : CStr) (exc : Exc) (out : List Char) : Prop :=
  Fails env opts k arg exc ∧ out = []

section Inputs
variable {env opts} {k : Nat} {arg : CStr}

/-- `verror` has something to show for every error of a parse. -/
theorem verror_returns {type : InputType} {input : List Char} {err : ParserError}
    (failed : parseText type input = .error (.error err)) (verboseError : Bool) (name : CStr) :
    ∃ thrown, verror verboseError name (Input.init type input).rest err.pos err.msg = .ok thrown := by
  cases verboseError with
  | false => exact ⟨_, rfl⟩
  | true =>
    obtain ⟨before, rest, whole, located⟩ := parseText_error_within failed
    obtain ⟨head, left, right, tail, around, rfl, rfl⟩ := Lines.exists_around newline before rest
    rw [whole, located]
    exact ⟨_, verror_around around name err.msg⟩

/-- `parse_input` returns an `AST` with the tree of the input, or throws what the input deserves. -/
theorem parseInput_cases (env : Env) (opts : Options) (k : Nat) (arg : CStr) :
    (∃ ast tree, parseInput env opts k arg = .ok ast ∧ Parses env opts k arg tree ∧ Stored.Shows ast tree) ∨
    ∃ exc, parseInput env opts k arg = .error exc ∧ Fails env opts k arg exc := by
  obtain ⟨nodeHeap, rawHeap, made⟩ := env.made k
  cases read : content env opts k arg with
  | error exc => exact .inr ⟨exc, by simp only [parseInput, read], .unread read⟩
  | ok input =>
    by_cases room : Fits env opts k input
    · rcases @parseText_stops opts.inputType input with ⟨tree, parsed⟩ | ⟨err, failed⟩
      · obtain ⟨ast, ran, shows_⟩ := storedText_shows made room parsed
        exact .inl ⟨ast, tree, by simp only [parseInput, read, ran], ⟨input, read, room, parsed⟩, shows_⟩
      · obtain ⟨thrown, shown⟩ := verror_returns failed opts.verbose (inputName opts arg)
        have ran := (storedText_paid made room).1 _ failed
        exact .inr ⟨_, by simp only [parseInput, read, ran, shown], .refused read room failed shown⟩
    · obtain ⟨what, ran⟩ := storedText_short made room
      exact .inr ⟨.exception (env.describe (.alloc (.badAlloc what))), by simp only [parseInput, read, ran], .short read room⟩

/-- An input does not both parse and fail. -/
theorem Parses.not_fails {tree : Tree} {exc : Exc} (parses : Parses env opts k arg tree) : ¬ Fails env opts k arg exc := by
  obtain ⟨input, read, room, parsed⟩ := parses
  intro fails
  cases fails with
  | unread failed => cases read.symm.trans failed
  | short read' full =>
    cases read.symm.trans read'
    exact full room
  | refused read' _ failed =>
    cases read.symm.trans read'
    cases parsed.symm.trans failed

theorem Parses.unique {tree tree' : Tree} (parses : Parses env opts k arg tree) (parses' : Parses env opts k arg tree') :
    tree = tree' := by
  obtain ⟨input, read, -, parsed⟩ := parses
  obtain ⟨input', read', -, parsed'⟩ := parses'
  cases read.symm.trans read'
  exact Except.ok.inj (parsed.symm.trans parsed')

/-- Only a standard input that has been read before is fatal. -/
theorem content_error {exc : Exc} (failed : content env opts k arg = .error exc) :
    (∃ what, exc = .runtimeError what) ∨
      exc = .crash ∧ opts.inputType = .file ∧ arg = ['-'] ∧ ['-'] ∈ opts.args.take k := by
  have told {read : Except (List Char) (List Char)} (failed : read.mapError Exc.runtimeError = .error exc) :
      ∃ what, exc = .runtimeError what := by
    cases read with
    | error what =>
      cases failed
      exact ⟨what, rfl⟩
    | ok input => cases failed
  unfold content at failed
  split at failed
  next => cases failed
  next file =>
    dsimp only at failed
    split at failed
    next => exact .inl (told failed)
    next named =>
      split at failed
      next closed =>
        cases failed
        exact .inr ⟨rfl, file, not_not.mp named, closed⟩
      next => exact .inl (told failed)

end Inputs

/-! The calls of an extension. -/

section Calls
variable {σ O : Type} {slot : Slot S (Loader F)} {load : CStr → Except (List Char) F} {call : F → Main S Int} {name : CStr}
  {func : F} {s : State S}

/-- The static objects when `func` is called: it was loaded before, or it is now. -/
def Slot.loaded (slot : Slot S (Loader F)) (func : F) (s : S) : S :=
  if (slot.get s).func.isSome then s else slot.set { func := some func, loads := (slot.get s).loads + 1 } s

theorem runExtFunc_eq (loads : load name = .ok func) (own : ∀ other ∈ (slot.get s.statics).func, other = func) :
    runExtFunc slot load call (some name) s = call func { s with statics := slot.loaded func s.statics } := by
  simp only [runExtFunc, get_bind, Slot.loaded]
  cases before : (slot.get s.statics).func with
  | some other =>
    rw [before] at own
    cases own other rfl
    rfl
  | none =>
    simp only [loads]
    rfl

theorem runAst_eq {ext : Extension S F} {opts : Options} {k : Nat} {ast : Option Store.AST}
    (chosen : opts.action.extFuncName = some name) (loads : ext.load name = .ok func)
    (own : ∀ other ∈ (ext.slot.get s.statics).func, other = func) :
    runAst ext opts k ast s = ext.call func k ast { s with statics := ext.slot.loaded func s.statics } := by
  rw [runAst, chosen]
  exact runExtFunc_eq loads own

variable (options : EStateM OptsStop σ O) (start : σ) (k : Nat)

/-- Call `k` finds the options `opt` in its arguments. -/
def Settles (opt : O) : Prop := ∃ left, Batch.Nth options start k (.ok opt left)

/-- It comes to a stop there. -/
def Balks (stop : OptsStop) : Prop := ∃ left, Batch.Nth options start k (.error stop left)

/-- Input `k` fails in silence, or the extension comes to a stop in its arguments. -/
def Halts (env : Env) (opts : Options) (arg : CStr) (exc : Exc) (out : List Char) : Prop :=
  FailsSilently env opts k arg exc out ∨
    ∃ tree stop, Parses env opts k arg tree ∧ Balks options start k stop ∧ exc = stop.exc ∧ out = stop.written

variable {options start k}

theorem Settles.unique {opt opt' : O} (settles : Settles options start k opt) (settles' : Settles options start k opt') :
    opt = opt' := by
  obtain ⟨_, nth⟩ := settles
  obtain ⟨_, nth'⟩ := settles'
  cases nth.unique nth'
  rfl

theorem Settles.not_balks {opt : O} {stop : OptsStop} (settles : Settles options start k opt) :
    ¬ Balks options start k stop := by
  rintro ⟨_, nth'⟩
  obtain ⟨_, nth⟩ := settles
  cases nth.unique nth'

variable (slot : Slot S σ)

theorem parseOptions_ok {opt : O} {left : σ} (returned : options (slot.get s.statics) = .ok opt left) :
    parseOptions slot options s = .ok opt { s with statics := slot.set left s.statics } := by
  unfold parseOptions
  rw [get_bind, returned]
  rfl

theorem parseOptions_error {stop : OptsStop} {left : σ} (stopped : options (slot.get s.statics) = .error stop left) :
    parseOptions slot options s =
      .error stop.exc { s with statics := slot.set left s.statics, cout := s.cout ++ stop.written } := by
  unfold parseOptions
  rw [get_bind, stopped]
  rfl

end Calls

/-! What is seen of a run: its output, and how it ends. -/

/-- A run of the program behind `n` good inputs, by what an input has to be and what it then writes. -/
def Tells (good : Nat → CStr → List Char → Prop) (bad : Nat → CStr → Exc → List Char → Prop) (args : List CStr) (n : Nat)
    (failure : Option Exc) (run : Ending × State S) : Prop :=
  Batch.Runs good bad 0 args n failure run.2.cout ∧ run.1 = failure.elim (.status 0) Exc.ending ∧
    run.2.cerr = failure.elim [] Exc.text

section Runs
variable {env opts} {ext : Extension S F} {I J : Nat → State S → Prop} {good : Nat → CStr → List Char → Prop}
  {bad : Nat → CStr → Exc → List Char → Prop} {k n : Nat} {args : List CStr} {s : State S} {failure : Option Exc}
  {run : Ending × State S}

theorem Tells.succeeds_iff (tells : Tells good bad args n failure run)
    (apart : ∀ k arg out exc out', good k arg out → ¬ bad k arg exc out') :
    failure = none ↔ ∀ i arg, args[i]? = some arg → ∃ out, good i arg out := by
  have succeeds := tells.1.succeeds_iff apart
  simpa only [Nat.zero_add] using succeeds

/-- A run over one good input. -/
theorem Tells.of_single {arg : CStr} {out : List Char} (tells : Tells good bad [arg] n failure run)
    (apart : ∀ k arg out exc out', good k arg out → ¬ bad k arg exc out') (here : good 0 arg out)
    (unique : ∀ out', good 0 arg out' → out' = out) : run.1 = .status 0 ∧ run.2.cout = out ∧ run.2.cerr = [] := by
  obtain ⟨runs, ended, message⟩ := tells
  generalize run.2.cout = written at runs
  cases runs with
  | next here' later =>
    cases later
    refine ⟨ended, ?_, message⟩
    rw [List.append_nil]
    exact unique _ here'
  | stop fails => exact absurd fails (apart _ _ _ _ _ here)

theorem drop_cons {list rest : List CStr} {k : Nat} {arg : CStr} (cut : list.drop k = arg :: rest) :
    list[k]? = some arg ∧ list.drop (k + 1) = rest := by
  constructor
  · rw [← Nat.add_zero k, ← List.getElem?_drop, cut]
    rfl
  · rw [← List.tail_drop, cut]
    rfl

/-- The loop goes through the inputs when a call on a tree does what its input is good or bad for. -/
theorem mainLoop_follows
    (calls : ∀ k arg ast tree s, opts.args[k]? = some arg → I k s → Parses env opts k arg tree → Stored.Shows ast tree →
      wp (runAst ext opts k (some ast)) (fun r s' => r = 0 ∧ ∃ out, good k arg out ∧ s'.cout = s.cout ++ out ∧ I (k + 1) s')
        (fun exc s' => ∃ out, bad k arg exc out ∧ s'.cout = s.cout ++ out ∧ J k s') s)
    (fails : ∀ k arg exc s, opts.args[k]? = some arg → I k s → Fails env opts k arg exc → bad k arg exc [] ∧ J k s)
    (rest : opts.args.drop k = args) (held : I k s) :
    Batch.Follows State.cout I J good bad k args (· = 0) (mainLoop env ext opts k args) s := by
  induction args generalizing k s with
  | nil => exact .nil rfl held
  | cons arg args ih =>
    obtain ⟨there, rest⟩ := drop_cons rest
    rw [mainLoop]
    rcases parseInput_cases env opts k arg with ⟨ast, tree, ran, parses, shows_⟩ | ⟨exc, ran, failed⟩
    · simp only [ran]
      refine .cons ((calls k arg ast tree s there held parses shows_).mono ?_ fun _ _ stops => stops)
      rintro r s₁ ⟨rfl, out, here, written, held₁⟩
      exact ⟨out, here, written, ih rest held₁⟩
    · simp only [ran]
      obtain ⟨here, left⟩ := fails k arg exc s there held failed
      exact .stop here left

/-- What `main` makes of a run of its loop. -/
theorem main_tells {statics : S} (follows : Batch.Follows State.cout I J good bad 0 args (· = 0) (body env ext opts) { statics })
    (silent : ∀ k s, I k s → s.cerr = []) (silent' : ∀ k s, J k s → s.cerr = []) :
    ∃ n failure s, Tells good bad args n failure (main env ext opts statics) ∧
      s.statics = (main env ext opts statics).2.statics ∧ (if failure.isNone then I n s else J n s) := by
  cases ran : body env ext opts { statics } with
  | ok r s =>
    obtain ⟨rfl, n, out, runs, written, held⟩ := wp.of_ok follows ran
    rw [Nat.zero_add] at held
    have cout : s.cout = out := written
    subst cout
    rw [main, ran]
    exact ⟨n, none, s, ⟨runs, rfl, silent n s held⟩, rfl, held⟩
  | error exc s =>
    obtain ⟨n, out, runs, written, held⟩ := wp.of_error follows ran
    rw [Nat.zero_add] at held
    have cout : s.cout = out := written
    subst cout
    rw [main, ran]
    refine ⟨n, some exc, s, ⟨runs, rfl, ?_⟩, rfl, held⟩
    change s.cerr ++ exc.text = exc.text
    rw [silent' n s held, List.nil_append]

end Runs

/-! How any run ends, whatever the calls make of their trees. -/

/-- The exceptions that `main` has a message for. -/
def Exc.reported : Exc → Bool
  | .parserError _ | .runtimeError _ | .exception _ => true
  | _ => false

/-- A result zero says that nothing has gone wrong, and one that a message was written. -/
def Returns (I J : S → Prop) (r : Int) (s : State S) : Prop :=
  r = 0 ∧ s.cerr = [] ∧ I s.statics ∨ r = 1 ∧ s.cerr ≠ [] ∧ J s.statics

def Stops (fatal : Prop) (J : S → Prop) (exc : Exc) (s : State S) : Prop :=
  (exc.reported = true ∨ exc = .exit 0 ∨ exc = .crash ∧ fatal) ∧ s.cerr = [] ∧ J s.statics

section Ends
variable {env opts} {ext : Extension S F} {fatal : Prop} {I : Nat → S → Prop} {J K : S → Prop}

theorem text_of_reported {exc : Exc} (reported : exc.reported = true) : exc.ending = .status 1 ∧ exc.text ≠ [] := by
  have some_ : ∀ text : List Char, text ++ [newline] ≠ [] :=
    fun text => List.append_ne_nil_of_right_ne_nil text (List.cons_ne_nil newline [])
  cases exc with
  | parserError | runtimeError | exception => exact ⟨rfl, some_ _⟩
  | exit => cases reported
  | crash => cases reported

theorem extError_returns {program extension text : List Char} {s : State S} (left : J s.statics) :
    wp (do extError program extension text; return (1 : Int)) (Returns K J) (Stops fatal J) s :=
  .inr ⟨rfl, List.append_ne_nil_of_right_ne_nil _ (List.cons_ne_nil _ _), left⟩

/-- The standard input is named twice. -/
def Options.rereads (opts : Options) : Prop := opts.inputType = .file ∧ 1 < opts.args.count ['-']

theorem Fails.stops {k : Nat} {arg : CStr} {exc : Exc} (there : opts.args[k]? = some arg) (fails : Fails env opts k arg exc)
    {s : State S} (silent : s.cerr = []) (left : J s.statics) (bad : opts.rereads → fatal) : Stops fatal J exc s := by
  refine ⟨?_, silent, left⟩
  cases fails with
  | short | refused => exact .inl rfl
  | unread failed =>
    rcases content_error failed with ⟨what, rfl⟩ | ⟨rfl, file, rfl, early⟩
    · exact .inl rfl
    · refine .inr (.inr ⟨rfl, bad ⟨file, ?_⟩⟩)
      obtain ⟨inside, here⟩ := List.getElem?_eq_some_iff.mp there
      have late : ['-'] ∈ opts.args.drop k := by
        rw [List.drop_eq_getElem_cons inside, here]
        exact List.mem_cons_self ..
      rw [← List.take_append_drop k opts.args, List.count_append]
      have first := List.count_pos_iff.mpr early
      have second := List.count_pos_iff.mpr late
      omega

variable (left : ∀ k s, I k s → J s)
  (calls : ∀ k (s : State S) ast, s.cerr = [] → I k s.statics → (∀ node ∈ ast, ∃ tree, Stored.Shows node tree) →
    wp (runAst ext opts k ast) (Returns (I (k + 1)) J) (Stops fatal J) s)
  (bad : opts.rereads → fatal)
include left calls bad

theorem mainLoop_returns {k : Nat} {args : List CStr} {s : State S} (rest : opts.args.drop k = args) (silent : s.cerr = [])
    (held : I k s.statics) : wp (mainLoop env ext opts k args) (Returns J J) (Stops fatal J) s := by
  induction args generalizing k s with
  | nil => exact .inl ⟨rfl, silent, left k _ held⟩
  | cons arg args ih =>
    obtain ⟨there, rest⟩ := drop_cons rest
    rw [mainLoop]
    rcases parseInput_cases env opts k arg with ⟨ast, tree, ran, -, shows_⟩ | ⟨exc, ran, fails⟩
    · simp only [ran, wp_bind]
      have shown : ∀ node ∈ some ast, ∃ tree, Stored.Shows node tree := by
        rintro _ ⟨⟩
        exact ⟨tree, shows_⟩
      refine (calls k s (some ast) silent held shown).mono ?_ (fun _ _ stops => stops)
      rintro r s₁ (⟨rfl, silent₁, held₁⟩ | ⟨rfl, failed⟩)
      · exact ih rest silent₁ held₁
      · exact .inr ⟨rfl, failed⟩
    · simp only [ran]
      exact fails.stops there silent (left k _ held) bad

/-- A program whose calls end comes to an end that its caller can tell: it succeeds in silence, or fails with a message. -/
theorem main_ends_of_calls {statics : S} (start : I 0 statics) :
    ((main env ext opts statics).1 = .status 0 ∧ (main env ext opts statics).2.cerr = [] ∨
      (main env ext opts statics).1 = .status 1 ∧ (main env ext opts statics).2.cerr ≠ [] ∨
      (main env ext opts statics).1 = .crash ∧ fatal) ∧
    J (main env ext opts statics).2.statics := by
  have run : wp (body env ext opts) (Returns J J) (Stops fatal J) { statics } := by
    rw [body]
    split
    · refine (calls 0 _ none rfl start (by rintro _ ⟨⟩)).mono ?_ fun _ _ stops => stops
      rintro r s (⟨rfl, silent, held⟩ | failed)
      · exact .inl ⟨rfl, silent, left _ _ held⟩
      · exact .inr failed
    · exact mainLoop_returns left calls bad rfl rfl start
  cases ran : body env ext opts { statics } with
  | ok r s =>
    rw [main, ran]
    rcases run.of_ok ran with ⟨rfl, silent, held⟩ | ⟨rfl, failed, held⟩
    · exact ⟨.inl ⟨rfl, silent⟩, held⟩
    · exact ⟨.inr (.inl ⟨rfl, failed⟩), held⟩
  | error exc s =>
    obtain ⟨known, silent, held⟩ := run.of_error ran
    rw [main, ran]
    refine ⟨?_, held⟩
    simp only [silent, List.nil_append]
    rcases known with reported | rfl | ⟨rfl, broken⟩
    · exact .inr (.inl (text_of_reported reported))
    · exact .inl ⟨rfl, rfl⟩
    · exact .inr (.inr ⟨rfl, broken⟩)

end Ends

end Program
end CxxpyTree
