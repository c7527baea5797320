import CxxpyTree.Ctype
import CxxpyTree.Lib.Machine
import Mathlib.Algebra.Group.Nat.Defs

/-! The options of an extension: `Obj::options_t::options` of tree/opts.cpp, over the array of arguments
that the program hands to every call. -/

namespace CxxpyTree

open Machine

inductive ExtAction where
  | extFunc
  | typeCheck
  | astBuild
  | printObj
  | printTypes
  deriving DecidableEq, Repr

inductive CastsType where
  | relaxedCasts
  | strictCasts
  deriving DecidableEq, Repr

/-- `opt_t`: the values of `opt_type_t`, and what `getopt_long` returns for itself. -/
inductive Opt where
  | extFunc
  | debug
  | noDebug
  | debugExtFunc
  | helpExtFunc
  | verbose
  | help
  | version
  | dumpOptions
  | typeCheck
  | astBuild
  | printObj
  | printTypes
  | relaxedCasts
  | strictCasts
  | traceEval
  | noTraceEval
  | missingArg
  | zero
  deriving DecidableEq, Repr

/-- `flag` is that of a member set to `&optopt`: the value goes there and the call returns zero. -/
structure LongOption where
  name : String
  hasArg : Bool := false
  flag : Bool := false
  val : Opt
  deriving DecidableEq, Repr

def shortOpts : List Char := ":F:vdD".toList ++ "cAorstT".toList

def longOpts : List LongOption :=
  [ { name := "ext-function", hasArg := true, val := .extFunc }, { name := "debug", val := .debug },
    { name := "no-debug", val := .noDebug }, { name := "debug-ext-func", val := .debugExtFunc },
    { name := "help-ext-func", val := .helpExtFunc }, { name := "dump-options", val := .dumpOptions },
    { name := "verbose", val := .verbose }, { name := "version", val := .version },
    { name := "help", flag := true, val := .help } ] ++
  [ { name := "type-check", val := .typeCheck }, { name := "ast-build", val := .astBuild },
    { name := "print-obj", val := .printObj }, { name := "print-types", val := .printTypes },
    { name := "relaxed-casts", val := .relaxedCasts }, { name := "strict-casts", val := .strictCasts },
    { name := "trace-eval", val := .traceEval }, { name := "no-trace-eval", val := .noTraceEval } ]

/-- What one call of `getopt_long` finds: its result, `optarg` and, behind the results where the code reads
them, `optopt` and `argv[optind - 1]`. -/
structure OptFound where
  opt : Opt
  optarg : Option CStr := none
  optopt : Option Char := none
  arg : CStr := []
  deriving DecidableEq, Repr

/-- The calls of `getopt_long` up to EOF over the arguments behind `argv[0]`: what they find, the
arguments in the order in which they leave them, and `optind`. -/
structure OptScan where
  found : List OptFound
  args : List CStr
  optind : Nat
  deriving DecidableEq, Repr

/-- What the code uses of the C library. `dirname` returns a directory and what is left of its argument. -/
structure CLibrary where
  dirname : CStr → CStr × CStr
  getoptLong : List Char → List LongOption → List CStr → OptScan

def CLibrary.scan (libc : CLibrary) (own : List CStr) : OptScan := libc.getoptLong shortOpts longOpts own

inductive OptError where
  | missingOptArg (opt : CStr)
  | invalidOpt (opt : CStr)
  deriving DecidableEq, Repr

def OptError.text : OptError → String
  | .missingOptArg opt => "argument for option '" ++ String.ofList opt ++ "' not found"
  | .invalidOpt opt => "invalid command line option '" ++ String.ofList opt ++ "'"

/-- Why a call does not come back: a thrown `Opts::Error`, `exit(0)`, or a null pointer under `strcmp`. -/
inductive OptStop where
  | error (err : OptError)
  | exit
  | nullRead
  deriving DecidableEq, Repr

/-- The members of `Opts::options_t` and `Obj::options_t`. `argv` and `extArgv` are places in the
shared array. -/
structure ExtOptions where
  homeDir : Option CStr := some []
  action : ExtAction := .typeCheck
  extFuncName : Option CStr := none
  debug : Bool := false
  debugExtFunc : Bool := false
  helpExtFunc : Bool := false
  verbose : Bool := false
  argc : Nat := 0
  argv : Option Nat := none
  extArgc : Nat := 0
  extArgv : Option Nat := none
  castsType : CastsType := .strictCasts
  traceEval : Bool := false
  deriving DecidableEq, Repr

/-- The members of `Tree::options_t` that an extension reads, the array apart. -/
structure ParentOptions where
  debugExtFunc : Bool := false
  helpExtFunc : Bool := false
  deriving DecidableEq, Repr

/-- The array at `parent->ext_argv`, of `parent->ext_argc` pointers, and the static object `opts`. -/
structure ExtState where
  args : List (Option CStr)
  opts : ExtOptions := {}
  deriving DecidableEq, Repr

abbrev ExtM := EStateM OptStop ExtState

def getExtFuncName : ExtAction → Option CStr
  | .printObj => some "printer::print".toList
  | _ => none

/-- `parse_opt`; `none` is its `false`. -/
def parseOpt (opts : ExtOptions) : Opt → Option ExtOptions
  | .typeCheck => some { opts with action := .typeCheck }
  | .astBuild => some { opts with action := .astBuild }
  | .printObj => some { opts with action := .printObj }
  | .printTypes => some { opts with action := .printTypes }
  | .relaxedCasts => some { opts with castsType := .relaxedCasts }
  | .strictCasts => some { opts with castsType := .strictCasts }
  | .traceEval => some { opts with traceEval := true }
  | .noTraceEval => some { opts with traceEval := false }
  | _ => none

structure BitsOpts where
  dump : Bool := false
  usage : Bool := false
  version : Bool := false
  deriving DecidableEq, Repr

def invOpt (found : OptFound) (opts : ExtOptions) (bits : BitsOpts) : Except OptStop (ExtOptions × BitsOpts) :=
  match found.optopt with
  | none => .error (.error (.invalidOpt found.arg))
  | some c => if c ≠ '?' then .error (.error (.invalidOpt ['-', c])) else .ok (opts, { bits with usage := true })

def takeOpt (s : ExtOptions × BitsOpts) (found : OptFound) : Except OptStop (ExtOptions × BitsOpts) :=
  let (opts, bits) := s
  match found.opt with
  | .extFunc => .ok ({ opts with action := .extFunc, extFuncName := found.optarg }, bits)
  | .debug => .ok ({ opts with debug := true }, bits)
  | .noDebug => .ok ({ opts with debug := false }, bits)
  | .debugExtFunc => .ok ({ opts with debugExtFunc := true }, bits)
  | .helpExtFunc => .ok ({ opts with helpExtFunc := true }, bits)
  | .dumpOptions => .ok (opts, { bits with dump := true })
  | .verbose => .ok ({ opts with verbose := true }, bits)
  | .version => .ok (opts, { bits with version := true })
  | .missingArg =>
    if ['-', '-'] <+: found.arg then .error (.error (.missingOptArg found.arg))
    else .error (.error (.missingOptArg ('-' :: found.optopt.toList)))
  | .help => invOpt found opts bits
  | .zero => .ok (opts, { bits with usage := true })
  | opt =>
    match parseOpt opts opt with
    | some opts => .ok (opts, bits)
    | none => invOpt found opts bits

def dashes : CStr := ['-', '-']

/-- `std::find_if` for the first `--`; the place behind the end if there is none. -/
def findDashes : List (Option CStr) → Except OptStop Nat
  | [] => .ok 0
  | none :: _ => .error .nullRead
  | some p :: rest =>
    if p = dashes then .ok 0
    else do
      let ptr ← findDashes rest
      return ptr + 1

section Parse
variable (libc : CLibrary)

/-- `home_dir = argc > 0 && argv[0] ? dirname(argv[0]) : nullptr`. -/
def ExtState.setHomeDir (s : ExtState) : ExtState :=
  match s.args with
  | some path :: rest =>
    let (dir, left) := libc.dirname path
    { args := some left :: rest, opts := { s.opts with homeDir := some dir } }
  | _ => { s with opts := { s.opts with homeDir := none } }

/-- The members `ext_argc` and `ext_argv` stay as they are when `ptr` is the end of the array. -/
def ExtState.splitAt (s : ExtState) (ptr : Nat) : ExtState :=
  if ptr < s.args.length then
    { s with opts := { s.opts with extArgc := s.args.length - ptr, extArgv := some ptr } }
  else s

/-- The arguments that `getopt_long` sees: the first `argc` without `argv[0]`. -/
def ExtState.own (s : ExtState) (argc : Nat) : List CStr := ((s.args.take argc).drop 1).reduceOption

/-- `getopt_long` has put its arguments in another order. -/
def ExtState.permute (s : ExtState) (argc : Nat) (args : List CStr) : List (Option CStr) :=
  s.args.take (min argc 1) ++ args.map some ++ s.args.drop argc

/-- The `getopt_long` loop. Returns the bits and `optind`. -/
def scanOpts (argc : Nat) : ExtM (BitsOpts × Nat) := do
  let s ← get
  let scan := libc.scan (s.own argc)
  match scan.found.foldlM takeOpt (s.opts, {}) with
  | .error stop => throw stop
  | .ok (opts, bits) =>
    set { args := s.permute argc scan.args, opts : ExtState }
    return (bits, scan.optind)

def ExtOptions.funcName (opts : ExtOptions) : Option CStr :=
  if opts.action = .extFunc then opts.extFuncName else getExtFuncName opts.action

/-- The members after the label `parse_done`, and the name in place of the `--`. -/
def ExtState.parseDone (s : ExtState) (argc : Nat) (argv : Option Nat) : ExtState where
  args :=
    match s.opts.extArgv with
    | some ptr => if 0 < s.opts.extArgc then s.args.set ptr s.opts.funcName else s.args
    | none => s.args
  opts := { s.opts with argc, argv, extFuncName := s.opts.funcName }

def exitOn (bits : BitsOpts) : ExtM Unit := do
  if bits.version || bits.dump || bits.usage then throw .exit

/-- `Opts::options_t::parse`. Returns the arguments that `getopt_long` has seen. -/
def parseBase : ExtM (List CStr) := do
  modify (·.setHomeDir libc)
  let s ← get
  if s.args.length = 0 then
    modify (·.parseDone 0 none)
    return []
  else
    match findDashes s.args with
    | .error stop => throw stop
    | .ok argc =>
      modify (·.splitAt argc)
      let (bits, optind) ← scanOpts libc argc
      -- `argc` is a `size_t`
      modify (·.parseDone ((argc + 2 ^ 64 - optind) % 2 ^ 64) (some optind))
      exitOn bits
      return s.own argc

/-- How a call has split the arguments: those before the first `--` without `argv[0]`, the contents of
`ext_argv[0..ext_argc)`, and `home_dir`. -/
structure ExtSplit where
  own : List CStr
  extArgc : Nat
  extArgs : List (Option CStr)
  homeDir : Option CStr
  deriving DecidableEq, Repr

def ExtState.split (s : ExtState) (own : List CStr) : ExtSplit where
  own := own
  extArgc := s.opts.extArgc
  extArgs :=
    match s.opts.extArgv with
    | some ptr => (s.args.drop ptr).take s.opts.extArgc
    | none => []
  homeDir := s.opts.homeDir

def extOptions (parent : ParentOptions) : ExtM ExtSplit := do
  let own ← parseBase libc
  modify fun s => { s with opts := { s.opts with debug := s.opts.debug || parent.debugExtFunc } }
  if parent.helpExtFunc then throw .exit
  let s ← get
  return s.split own

/-- The calls for the successive inputs. One that does not come back ends the program. -/
def extCalls (parent : ParentOptions) : Nat → ExtState → List (Except OptStop ExtSplit)
  | 0, _ => []
  | calls + 1, s =>
    match extOptions libc parent s with
    | .ok split s' => .ok split :: extCalls parent calls s'
    | .error stop _ => [.error stop]

end Parse

end CxxpyTree
