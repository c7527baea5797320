import Mathlib.Data.List.TakeWhile
import Mathlib.Tactic.Common

/-! Bytes and strings of the C library in the "C" locale. A `char` is a `Char`, its code
being the byte; codes above 255 do not occur in a real input and belong to no class. -/

namespace CxxpyTree

/-- The characters of a C string, without the NUL that ends it. -/
abbrev CStr := List Char

def nul : Char := '\x00'
def newline : Char := '\n'
def backslash : Char := '\\'

def isspace (c : Char) : Bool := c.toNat == 32 || (9 ≤ c.toNat && c.toNat ≤ 13)
def isdigit (c : Char) : Bool := 48 ≤ c.toNat && c.toNat ≤ 57
def isupper (c : Char) : Bool := 65 ≤ c.toNat && c.toNat ≤ 90
def islower (c : Char) : Bool := 97 ≤ c.toNat && c.toNat ≤ 122
def isalpha (c : Char) : Bool := isupper c || islower c
def iscntrl (c : Char) : Bool := c.toNat < 32 || c.toNat == 127
def isascii (c : Char) : Bool := c.toNat < 128

/-- What a reader of a `const char*` sees of a buffer: everything before the first NUL. -/
def cstr (buf : List Char) : CStr := buf.takeWhile (· != nul)

/-- `strcmp(a, b) < 0`: the comparison is by unsigned bytes. -/
def strcmpLt (a b : CStr) : Bool := decide (a < b)

theorem cstr_of_nul_free {buf : List Char} (free : nul ∉ buf) : cstr buf = buf := by
  apply List.takeWhile_eq_self_iff.mpr
  intro c member
  simp only [bne_iff_ne, ne_eq]
  rintro rfl
  exact free member

theorem nul_not_mem_cstr (buf : List Char) : nul ∉ cstr buf := by
  intro member
  have kept := List.mem_takeWhile_imp member
  simp at kept

@[simp] theorem cstr_cstr (buf : List Char) : cstr (cstr buf) = cstr buf :=
  cstr_of_nul_free (nul_not_mem_cstr buf)

@[simp] theorem cstr_nil : cstr [] = [] := rfl

section Classes
variable {c : Char}

/-- The classes as ranges of codes, the form in which `omega` settles how they overlap. -/
theorem isspace_iff : isspace c = true ↔ c.toNat = 32 ∨ 9 ≤ c.toNat ∧ c.toNat ≤ 13 := by simp [isspace]
theorem isdigit_iff : isdigit c = true ↔ 48 ≤ c.toNat ∧ c.toNat ≤ 57 := by simp [isdigit]
theorem isalpha_iff : isalpha c = true ↔
    65 ≤ c.toNat ∧ c.toNat ≤ 90 ∨ 97 ≤ c.toNat ∧ c.toNat ≤ 122 := by simp [isalpha, isupper, islower]
theorem iscntrl_iff : iscntrl c = true ↔ c.toNat < 32 ∨ c.toNat = 127 := by simp [iscntrl]
theorem isascii_iff : isascii c = true ↔ c.toNat < 128 := by simp [isascii]

end Classes

end CxxpyTree
