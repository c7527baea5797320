import CxxpyTree.Evaluator
import CxxpyTree.Lib.Unfold
import CxxpyTree.SourcePrinter

/-! What `print` of tree/eval.hpp writes about an evaluation: its types and values, down to the
declarations of an extension library when the output is verbose. -/

namespace CxxpyTree.Obj

def toupper (c : Char) : Char := if islower c then Char.ofNat (c.toNat - 32) else c

def typeNameLoop (skip : Bool) : CStr → List Char
  | [] => []
  | c :: rest =>
    if c = '_' then typeNameLoop true rest
    else (if skip then toupper c else c) :: typeNameLoop false rest

/-- `type_name_print_t::print`: a name of C in the case of a node name, without its `_t`. -/
def typeNamePrint (name : CStr) : List Char :=
  match if 2 < name.length ∧ "_t".toList <:+ name then name.take (name.length - 2) else name with
  | [] => []
  | c :: rest => toupper c :: typeNameLoop false rest

def printStr (str : CStr) : List Char := '\'' :: (str ++ ['\''])

def printSize (size : Nat) : List Char := "Size('".toList ++ (decimalText size ++ "')".toList)

def printPtr (addr : UInt64) : List Char :=
  if addr = 0 then "Null()".toList
  else
    -- `UINTPTR_FMT_WIDTH` digits
    let hex := Nat.toDigits 16 addr.toNat
    "Ptr('0x".toList ++ (List.replicate (16 - hex.length) '0' ++ (hex ++ "')".toList))

def objHeadPrint (name : CStr) (kind : String) (isType : Bool) : List Char :=
  typeNamePrint name ++ "(.type = ".toList ++ printStr kind.toList ++ " .".toList ++ kind.toList ++ " = ".toList ++
    typeNamePrint kind.toList ++ if isType then "ObjType".toList else "ObjValue".toList

variable {ι : Type}

section Print
variable (t : TypeTable ι) (verbose : Bool)

def printCptrType (c : CptrType) : List Char :=
  if verbose then typeNamePrint "cptr_type_t".toList ++ '(' :: (printStr c.name ++ [')']) else printStr c.name

/-- `obj_type_t::print`; `astText` is the print of an `ast_type_t`, which need not come to an end. -/
def printObjType (astText : ι → Option (List Char)) : ObjType ι → Option (List Char)
  | .node astType => do
    let ast ← astText astType
    return objHeadPrint "obj_type_t".toList "node" true ++ "(.ast_type = ".toList ++ ast ++ "))".toList
  | .list astType => do
    let ast ← astText astType
    return objHeadPrint "obj_type_t".toList "list" true ++ "(.ast_type = ".toList ++ ast ++ "))".toList
  | .cptr cptrType =>
    return objHeadPrint "obj_type_t".toList "cptr" true ++ "(.cptr_type = ".toList ++
      printCptrType verbose cptrType ++ "))".toList

def printArgDef (astText : ι → Option (List Char)) (arg : ArgDef ι) : Option (List Char) := do
  let type ← printObjType verbose astText arg.argType
  return typeNamePrint "arg_def_t".toList ++ "(.arg_name = ".toList ++ printStr arg.argName ++
    " .arg_type = ".toList ++ type ++ [')']

def printArgDefs (astText : ι → Option (List Char)) : List (ArgDef ι) → (n : Nat) → Option (List Char)
  | [], _ => some []
  | arg :: args, n => do
    let text ← printArgDef verbose astText arg
    let rest ← printArgDefs astText args (n + 1)
    return (if n = 0 then [] else [' ']) ++ '[' :: (decimalText n ++ "] = ".toList ++ text ++ rest)

def printBase (astText : ι → Option (List Char)) : Option ι → Option (List Char)
  | some base => astText base
  | none => some "NullAstType()".toList

/-- `ast_type_t::print` when it is verbose: it goes on to the base and to the types of the arguments. A call
that is still not at its end behind `fuel` others has no text. -/
def printVerbose : (fuel : Nat) → ι → Option (List Char)
  | 0, _ => none
  | fuel + 1, i => do
    let type := t.astType i
    let base ← printBase (printVerbose fuel) type.base
    let args ← printArgDefs true (printVerbose fuel) type.args 0
    return "Node".toList ++ typeNamePrint "ast_type_t".toList ++ "(.name = ".toList ++ printStr type.name ++
      " .base = ".toList ++ base ++ " .args = list<".toList ++ typeNamePrint "arg_def_t".toList ++ "> [".toList ++
      args ++ "])".toList

def printAstType (fuel : Nat) (i : ι) : Option (List Char) :=
  if verbose then printVerbose t fuel i else some (printStr (t.astType i).name)

def ObjType.print (fuel : Nat) (obj : ObjType ι) : Option (List Char) :=
  printObjType verbose (printAstType t verbose fuel) obj

/-- `obj_value_t::print`. A node and the elements of a list are printed as the address at which they
happen to be; a list without elements has none. -/
def ObjValue.print (fuel : Nat) (addr : UInt64) : ObjValue ι → Option (List Char)
  | .node astType _ => do
    let ast ← printAstType t verbose fuel astType
    return objHeadPrint "obj_value_t".toList "node" false ++ "(.ast_type = ".toList ++ ast ++ " .ptr = ".toList ++
      printPtr addr ++ "))".toList
  | .list astType elems => do
    let ast ← printAstType t verbose fuel astType
    return objHeadPrint "obj_value_t".toList "list" false ++ "(.ast_type = ".toList ++ ast ++ " .size = ".toList ++
      printSize elems.length ++ " .ptr = ".toList ++ printPtr (if elems.isEmpty then 0 else addr) ++ "))".toList
  | .cptr str =>
    return objHeadPrint "obj_value_t".toList "cptr" false ++ "(.cptr_type = ".toList ++
      printCptrType verbose .charPtr ++ " .ptr = ".toList ++ printStr str ++ "))".toList

end Print

end CxxpyTree.Obj
