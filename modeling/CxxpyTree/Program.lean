import CxxpyTree.StoredPrinter
import CxxpyTree.VerboseError

/-! The program: `main` of tree/tree.cpp over the inputs that its options leave, with the extension functions of a
module. What the debugging flags of a DEBUG build write is left out. -/

namespace CxxpyTree
namespace Program
open Machine

inductive Action where
  | extFunc (name : CStr)  -- the argument of the option
  | noAction
  | print
  | dump
  | prettyPrint
  | tersePrint
  deriving DecidableEq, Repr

def Action.extFuncName : Action → Option CStr
  | .extFunc name => some name
  | .noAction => none
  | .print => some "printer::print".toList
  | .dump => some "printer::dump".toList
  | .prettyPrint => some "printer::pretty_print".toList
  | .tersePrint => some "printer::terse_print".toList

/-- The members of `Tree::options_t` that are read behind its `parse`; `args` are `argv[0..argc)`, and `extArgs` are
`ext_argv[0..ext_argc)`. -/
structure Options where
  action : Action := .prettyPrint
  inputType : InputType := .text
  verbose : Bool := false
  debugExtFunc : Bool := false
  helpExtFunc : Bool := false
  args : List CStr := []
  extArgs : List CStr := []
  deriving DecidableEq, Repr

/-- What leaves a function without a result: an exception, a call of `exit`, or what no handler sees, which is a null
pointer, an exception out of a destructor or a loop that never ends. -/
inductive Exc where
  | parserError (err : Thrown)
  | runtimeError (what : List Char)
  | exception (what : List Char)
  | exit (status : Int)
  | crash
  deriving DecidableEq, Repr

structure Loader (F : Type) where
  func : Option F := none  -- the static `ext_func` of an instance of `run_ext_func`
  loads : Nat := 0  -- how often it has called `load`
  deriving DecidableEq, Repr

structure State (S : Type) where
  cout : List Char := []
  cerr : List Char := []
  statics : S
  deriving DecidableEq, Repr

abbrev Main (S : Type) := EStateM Exc (State S)

structure Slot (S A : Type) where
  get : S → A
  set : A → S → S

inductive OptsStop where
  | error (what : List Char)
  | exit (written : List Char)
  | crash  -- a null pointer
  deriving DecidableEq, Repr

def OptsStop.exc : OptsStop → Exc
  | .error what => .runtimeError what
  | .exit _ => .exit 0
  | .crash => .crash

def OptsStop.written : OptsStop → List Char
  | .exit written => written
  | _ => []

section Calls
variable {S F σ O : Type}

def write (text : List Char) : Main S Unit := modify fun s => { s with cout := s.cout ++ text }

def runExtFunc (slot : Slot S (Loader F)) (load : CStr → Except (List Char) F) (call : F → Main S Int)
    (extFuncName : Option CStr) : Main S Int := do
  match extFuncName with
  | none => return 0
  | some name => do
    let s ← get
    let loader := slot.get s.statics
    match loader.func with
    | some func => call func
    | none =>
      match load name with
      | .error what => do
        set { s with statics := slot.set { loads := loader.loads + 1 } s.statics }
        throw (.runtimeError what)
      | .ok func => do
        set { s with statics := slot.set { func := some func, loads := loader.loads + 1 } s.statics }
        call func

/-- The call of `options_t::options` in an extension, on its static object and the array of its arguments. -/
def parseOptions (slot : Slot S σ) (options : EStateM OptsStop σ O) : Main S O := do
  let s ← get
  match options (slot.get s.statics) with
  | .ok opt left => do
    set { s with statics := slot.set left s.statics }
    return opt
  | .error stop left => do
    set { s with statics := slot.set left s.statics, cout := s.cout ++ stop.written }
    throw stop.exc

def extError (program extension text : List Char) : Main S Unit :=
  modify fun s => { s with cerr := s.cerr ++ program ++ ": ".toList ++ extension ++ ": error: ".toList ++ text ++ [newline] }

end Calls

/-- What the program finds around it: the sizes of its classes, the memory for the `AST` of each input, the files and
the standard input, and the description of an exception of an `AST`. Descriptor 0 is open at the start, and a file that
is opened when it has been closed is read as the standard input is. -/
structure Env where
  layout : Store.Layout
  ast : Nat → Store.AST
  made : ∀ k, ∃ nodeHeap rawHeap, Store.new nodeHeap rawHeap = some (ast k)
  readFile : (closed : Bool) → CStr → Except (List Char) (List Char)
  stdin : Except (List Char) (List Char)
  describe : Store.StoreError → List Char

structure Extension (S F : Type) where
  slot : Slot S (Loader F)
  load : CStr → Except (List Char) F
  call : F → (k : Nat) → Option Store.AST → Main S Int  -- call `k`, over the inputs

section Main
variable {S F : Type} (env : Env) (ext : Extension S F) (opts : Options)

def content (k : Nat) (arg : CStr) : Except Exc (List Char) :=
  match opts.inputType with
  | .text => .ok arg
  | .file =>
    -- the first `-` has closed descriptor 0, and `~file_t` throws when a second one does it again
    let closed := ['-'] ∈ opts.args.take k
    if arg ≠ ['-'] then (env.readFile closed arg).mapError .runtimeError
    else if closed then .error .crash
    else env.stdin.mapError .runtimeError

def inputName (arg : CStr) : CStr :=
  match opts.inputType with
  | .text => "<text>".toList
  | .file => if arg = ['-'] then "<stdin>".toList else arg

def parseInput (k : Nat) (arg : CStr) : Except Exc Store.AST :=
  match content env opts k arg with
  | .error exc => .error exc
  | .ok input =>
    match Stored.parseText env.layout opts.inputType input (env.ast k) with
    | .ok ast => .ok ast
    | .error (.parser (.error err)) =>
      match verror opts.verbose (inputName opts arg) (Input.init opts.inputType input).rest err.pos err.msg with
      | .ok thrown => .error (.parserError thrown)
      | .error _ => .error .crash
    | .error (.parser _) => .error .crash
    | .error (.store .nullPtr) => .error .crash
    | .error (.store err) => .error (.exception (env.describe err))

def runAst (k : Nat) (ast : Option Store.AST) : Main S Int :=
  runExtFunc ext.slot ext.load (fun func => ext.call func k ast) opts.action.extFuncName

def mainLoop (k : Nat) : List CStr → Main S Int
  | [] => return 0
  | arg :: args =>
    match parseInput env opts k arg with
    | .error exc => throw exc
    | .ok ast => do
      let r ← runAst ext opts k (some ast)
      if r ≠ 0 then return r
      mainLoop (k + 1) args

def body : Main S Int :=
  if opts.helpExtFunc || opts.args.length = 0 then runAst ext opts 0 none
  else mainLoop env ext opts 0 opts.args

def parserErrorMsg (head : List Char) (err : Thrown) : List Char :=
  head ++ ": ".toList ++ err.what ++ err.msgs.flatMap fun msg => newline :: (head ++ ": ".toList ++ msg)

def Exc.text : Exc → List Char
  | .parserError err => parserErrorMsg "tree: parse error".toList err ++ [newline]
  | .runtimeError what => "tree: error: ".toList ++ what ++ [newline]
  | .exception what => "tree: exception: ".toList ++ what ++ [newline]
  | .exit _ => []
  | .crash => []

inductive Ending where
  | status (n : Int)
  | crash
  deriving DecidableEq, Repr

def Exc.ending : Exc → Ending
  | .exit status => .status status
  | .crash => .crash
  | _ => .status 1

/-- `main` behind its options: how it ends, and the state that it leaves. -/
def main (statics : S) : Ending × State S :=
  match body env ext opts { statics } with
  | .ok r s => (.status r, s)
  | .error exc s => (exc.ending, { s with cerr := s.cerr ++ exc.text })

end Main

end Program
end CxxpyTree
