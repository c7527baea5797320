import CxxpyTree.EvalTrace
import CxxpyTree.ExtOptions
import CxxpyTree.NodePools
import CxxpyTree.PrintTypes
import CxxpyTree.ProgramRun

/-! The program with an extension library: `ext_func_entry` of tree/eval-impl.hpp, and that of the printer of a library
in tree/ext-printer-impl.hpp. -/

namespace CxxpyTree
namespace Program
open Machine Obj

/-- An extension library, with the names in its messages and in those of its printer. -/
structure Library (ι : Type) where
  ext : ExtLibrary ι
  classes : Classes ι
  program : List Char
  extension : List Char
  printer : List Char

/-- What the compiler, the C library and the memory bring into the calls of a library: `exitText` is what a parse of the
options writes before it exits, and `addr k` has the addresses of the values that call `k` shows, the result first and
then those in the lines of the trace. -/
structure Host (ι : Type) where
  libc : CLibrary
  exitText : ExtState → List Char
  loadPrinter : (homeDir : Option CStr) → CStr → Except (List Char) Unit
  pools : Nat → Pools
  addr : Nat → Nat → UInt64
  prettyFunction : VisitFunc → List Char
  cycleError : ObjType ι → List Char
  describe : AllocError → List Char

-- each of the modules exports one function
structure Loaders where
  entry : Loader Unit := {}
  printer : Loader Unit := {}
  opts : ExtState
  deriving DecidableEq, Repr

def entrySlot : Slot Loaders (Loader Unit) where
  get s := s.entry
  set entry s := { s with entry }

def printerSlot : Slot Loaders (Loader Unit) where
  get s := s.printer
  set printer s := { s with printer }

def extOptsSlot : Slot Loaders ExtState where
  get s := s.opts
  set opts s := { s with opts }

def Options.parent (opts : Options) : ParentOptions := { debugExtFunc := opts.debugExtFunc, helpExtFunc := opts.helpExtFunc }

def Options.extState (opts : Options) : ExtState := { args := opts.extArgs.map some }

section Entry
variable {ι : Type} [DecidableEq ι] (lib : Library ι) (host : Host ι)

/-- `Obj::options_t::options`, with the text of the `Opts::Error` that it throws. -/
def objOptions (parent : ParentOptions) : EStateM OptsStop ExtState ExtOptions := fun s =>
  match extOptions host.libc parent s with
  | .ok _ left => .ok left.opts left
  | .error (.error err) left => .error (.error (vformat err.text.toList)) left
  | .error .exit left => .error (.exit (host.exitText s)) left
  | .error .nullRead left => .error .crash left

/-- The maker of an action, and the print of the `j`-th value that it shows, which may never end. -/
structure Evaluation (ι V : Type) where
  maker : Maker ι V
  print : (j : Nat) → V → Option (List Char)

section Options
variable (opt : ExtOptions) (k : Nat)

def strictCasts : Bool := opt.castsType == .strictCasts

def typeEvaluation : Evaluation ι (ObjType ι) where
  maker := TypeMaker lib.ext.table (strictCasts opt)
  print _ type := type.print lib.ext.table opt.verbose lib.ext.table.types.length

def nodeEvaluation : Evaluation ι (ObjValue ι) where
  maker := lib.ext.nodeMakerOn (strictCasts opt) (demand lib.classes (host.pools k))
  print j value := value.print lib.ext.table opt.verbose lib.ext.table.types.length (host.addr k j)

def writePrinted (text : Option (List Char)) : Main Loaders Unit :=
  match text with
  | some text => write text
  | none => throw .crash

def leaveEval {α : Type} : Obj.Stop ι → Main Loaders α
  | .error err => throw (.runtimeError (vformat err.what.toList))
  | .alloc err => throw (.exception (host.describe err))
  | .cycle src => do
    modify fun s => { s with cerr := s.cerr ++ host.cycleError src }
    throw (.exit 127)
  | _ => throw .crash

variable {V : Type} (evaluation : Evaluation ι V)

def traceLine (line : TraceLine V × Nat) : Option (List Char) :=
  line.1.text host.prettyFunction (evaluation.print (line.2 + 1))

/-- `eval` behind the output of its trace. -/
def evalTraced (tree : Tree) : Main Loaders V := do
  let run := Traced.eval lib.ext.table evaluation.maker opt.traceEval tree {}
  writePrinted ((run.2.zipIdx.mapM (traceLine host evaluation)).map List.flatten)
  match run.1.1 with
  | .ok value => return value
  | .error stop => leaveEval host stop

/-- `exec<TypeMaker>` and `exec<NodeMaker>`. -/
def execShown (tree : Tree) : Main Loaders Int := do
  let obj ← evalTraced lib host opt evaluation tree
  writePrinted ((evaluation.print 0 obj).map (· ++ [newline]))
  return 0

/-- `ext_print_func_entry` of an object that is not null. -/
def printerEntry (obj : Node ι) : Main Loaders Int :=
  if opt.action = .extFunc then do
    extError lib.program lib.printer "extension functions are not supported".toList
    return 1
  else do
    if !opt.helpExtFunc then write (lib.ext.print obj)
    return 0

def runObject : ObjValue ι → Main Loaders Int
  | .node _ ptr =>
    runExtFunc printerSlot (host.loadPrinter opt.homeDir) (fun _ => printerEntry lib opt ptr) opt.extFuncName
  | value => throw (.runtimeError (vformat (ObjError.typeMismatch "node" value.type.kindName).what.toList))

/-- `exec<run_ext_t>`. -/
def execRun (tree : Tree) : Main Loaders Int := do
  let obj ← evalTraced lib host opt (nodeEvaluation lib host opt k) tree
  runObject lib host opt obj

end Options

/-- `ext_func_entry`. The visits walk over the objects of the `AST`, here over the tree that these hold; an object that
is no `Tree` does not come out of the parser. -/
def libraryEntry (opts : Options) (k : Nat) (ast : Option Store.AST) : Main Loaders Int := do
  let opt ← parseOptions extOptsSlot (objOptions host opts.parent)
  if opt.action = .printTypes then do
    write (printTypes lib.ext.table)
    return 0
  else
    match if opts.args.length = 0 then none else ast with
    | none => do
      extError lib.program lib.extension "no input given".toList
      return 1
    | some ast =>
      match Stored.tree ast with
      | none => throw .crash
      | some tree =>
        match opt.action with
        | .typeCheck => execShown lib host opt (typeEvaluation lib opt) tree
        | .astBuild => execShown lib host opt (nodeEvaluation lib host opt k) tree
        | _ => execRun lib host opt k tree

def Library.toExtension (load : CStr → Except (List Char) Unit) (opts : Options) : Extension Loaders Unit where
  slot := entrySlot
  load := load
  call _ k ast := libraryEntry lib host opts k ast

end Entry

end Program
end CxxpyTree
