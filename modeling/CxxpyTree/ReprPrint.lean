import CxxpyTree.VerboseError

/-! `ReprPrint<char>` of std-ext.hpp: what it puts out for a character, and the count it returns beside
it, from which `quote_non_plain` corrects a column. -/

namespace CxxpyTree

inductive CharReprType
  | quoted
  | plain
  deriving DecidableEq, Repr

inductive StrReprType
  | string
  | plain
  deriving DecidableEq, Repr

namespace ReprPrint

/-- The text that goes to the stream, and the number returned. -/
abbrev Printed := List Char × Nat

def printOut (ch : Char) : Printed := ([ch], 1)

def printOutQuoted (ch : Char) : Printed := (['\\', ch], 2)

def printOutHex (ch : Char) (str : Bool) : Printed :=
  let c := Nat.toDigits 16 ch.toNat
  ('\\' :: 'x' :: List.replicate (1 + str.toNat - c.length) '0' ++ c, 3 + (str || decide (16 ≤ ch.toNat)).toNat)

def printStr (ch : Char) (type : StrReprType) : Printed :=
  let str := type == .string
  match ch with
  | '\\' => printOutQuoted '\\'
  | '\x0c' => printOutQuoted 'f'
  | '\n' => printOutQuoted 'n'
  | '\r' => printOutQuoted 'r'
  | '\t' => printOutQuoted 't'
  | '\x0b' => printOutQuoted 'v'
  | '"' => if str then printOutQuoted '"' else printOut ch
  | '\'' => if !str then printOutQuoted '\'' else printOut ch
  | _ => if isascii ch && !iscntrl ch then printOut ch else printOutHex ch str

def printChar (ch : Char) (type : CharReprType) : Printed :=
  let q := type == .quoted
  let (text, n) := printStr ch (if q then .plain else .string)
  if q then ('\'' :: text ++ ['\''], 1 + n + 1) else (text, n)

section Counts
variable {ch : Char}

theorem length_toDigits (byte : ch.toNat < 256) :
    (Nat.toDigits 16 ch.toNat).length = 1 + (decide (16 ≤ ch.toNat)).toNat := by
  have short : (Nat.toDigits 16 ch.toNat).length ≤ 2 := (Nat.length_toDigits_le_iff (by decide) (by decide)).mpr byte
  have some : 0 < (Nat.toDigits 16 ch.toNat).length := Nat.length_toDigits_pos
  have one : (Nat.toDigits 16 ch.toNat).length ≤ 1 ↔ ch.toNat < 16 := Nat.length_toDigits_le_iff (by decide) (by decide)
  by_cases large : 16 ≤ ch.toNat <;> simp [large] <;> omega

theorem printOutHex_exact (byte : ch.toNat < 256) (str : Bool) : (printOutHex ch str).2 = (printOutHex ch str).1.length := by
  have digits := length_toDigits byte
  cases str <;> by_cases large : 16 ≤ ch.toNat <;> simp [printOutHex, large] at digits ⊢ <;> omega

theorem printStr_exact (byte : ch.toNat < 256) (type : StrReprType) :
    (printStr ch type).2 = (printStr ch type).1.length := by
  unfold printStr
  dsimp only
  split
  case h_9 =>
    split
    · rfl
    · exact printOutHex_exact byte _
  all_goals first | rfl | (split <;> rfl)

theorem printChar_exact (byte : ch.toNat < 256) (type : CharReprType) :
    (printChar ch type).2 = (printChar ch type).1.length := by
  have inner := printStr_exact byte
  cases type with
  | plain => exact inner .string
  | quoted =>
    have := inner .plain
    simp only [printChar, beq_self_eq_true, if_true, List.length_append, List.length_cons, List.length_nil]
    omega

/-- Text and count of `reprChar` and `reprSize` are those of the printer. -/
theorem printStr_eq (ch : Char) (type : StrReprType) :
    printStr ch type = (reprChar ch (type == .string), reprSize ch (type == .string)) := by
  unfold printStr
  dsimp only
  split
  case h_9 h1 h2 h3 h4 h5 h6 h7 h8 =>
    simp only [reprChar, reprSize, beq_eq_false_iff_ne.mpr h1, beq_eq_false_iff_ne.mpr h2, beq_eq_false_iff_ne.mpr h3,
      beq_eq_false_iff_ne.mpr h4, beq_eq_false_iff_ne.mpr h5, beq_eq_false_iff_ne.mpr h6, beq_eq_false_iff_ne.mpr h7,
      beq_eq_false_iff_ne.mpr h8, Bool.or_false, Bool.false_eq_true, if_false]
    split
    · rfl
    · have plain : (StrReprType.plain == StrReprType.string) = false := rfl
      by_cases large : 16 ≤ ch.toNat <;> cases type <;> simp [printOutHex, large, plain]
  all_goals cases type <;> rfl

theorem printChar_plain (ch : Char) : printChar ch .plain = (reprChar ch true, reprSize ch true) :=
  printStr_eq ch .string

end Counts

end ReprPrint

/-- The characters of `[beg, end)`. -/
def charRange (input : List Char) (first last : Nat) : List Char := (input.take last).drop first

/-- Plain characters as they are, the others as the escapes that `ReprPrint<char>` puts out. -/
def rendition (text : List Char) : List Char :=
  text.flatMap fun c => if isPlainChar c then [c] else (ReprPrint.printChar c .plain).1

theorem rendition_eq_escaped (text : List Char) : rendition text = escaped text := by
  simp only [rendition, escaped, ReprPrint.printChar_plain]

section Correction
variable {input : List Char} {first ptr last : Nat}

/-- The start of a range is what the loop corrects the column by. -/
theorem take_charRange (order : ptr ≤ last) : (charRange input first last).take (ptr - first) = charRange input first ptr := by
  unfold charRange
  rw [List.drop_take, List.take_take, List.drop_take]
  congr 1
  omega

theorem length_charRange (inside : ptr ≤ input.length) : (charRange input first ptr).length = ptr - first := by
  simp [charRange, inside]

theorem quoteNonPlain_eq (order : first ≤ ptr ∧ ptr ≤ last) : quoteNonPlain input first last ptr =
    .ok (escaped (charRange input first last), ((charRange input first ptr).map (escapedSize · - 1)).sum) := by
  rw [quoteNonPlain, if_neg (fun other => other order), ← charRange, quoteNonPlainLoop_run, take_charRange order.2]

/-- `quote_non_plain` renders its range, and the column it corrects is the width of what it renders of `[beg, ptr)`;
the counts of `ReprPrint<char>` are the lengths of what it puts out. -/
theorem quoteNonPlain_exact (bytes : IsBytes input) (order : first ≤ ptr ∧ ptr ≤ last) (inside : last ≤ input.length) :
    (∃ str n, quoteNonPlain input first last ptr = .ok (str, n) ∧ str = rendition (charRange input first last) ∧
      ptr - first + n = (rendition (charRange input first ptr)).length) ∧
    ∀ ch : Char, ch.toNat < 256 →
      (∀ type, (ReprPrint.printChar ch type).2 = (ReprPrint.printChar ch type).1.length) ∧
      ∀ type, (ReprPrint.printStr ch type).2 = (ReprPrint.printStr ch type).1.length := by
  refine ⟨⟨_, _, quoteNonPlain_eq order, (rendition_eq_escaped _).symm, ?_⟩, fun ch byte =>
    ⟨ReprPrint.printChar_exact byte, ReprPrint.printStr_exact byte⟩⟩
  have part : IsBytes (charRange input first ptr) :=
    fun c listed => bytes c (List.mem_of_mem_take (List.mem_of_mem_drop listed))
  have column := corrected_column part
  rw [length_charRange (order.2.trans inside)] at column
  rw [column, rendition_eq_escaped]

/-- A tab and a byte of two hexadecimal digits before the place. -/
theorem quoteNonPlain_exact_tab : ∃ str n, quoteNonPlain ['a', '\t', '\xe9', 'b'] 0 4 3 = .ok (str, n) ∧
    str = ['a', '\\', 't', '\\', 'x', 'e', '9', 'b'] ∧ 3 - 0 + n = 7 := by
  obtain ⟨⟨str, n, made, rendered, column⟩, -⟩ :=
    @quoteNonPlain_exact ['a', '\t', '\xe9', 'b'] 0 3 4 (by decide) (by decide) (by decide)
  exact ⟨str, n, made, rendered.trans (by decide), column.trans (by decide)⟩

end Correction

end CxxpyTree
