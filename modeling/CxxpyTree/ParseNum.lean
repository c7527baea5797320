import CxxpyTree.Ctype
import Mathlib.Tactic.Linarith

/-! `Ext::parse_num` of std-ext.hpp: a head check, `strtoll` or `strtoull`, a checked narrowing
of the result and a test for the end of the string. -/

namespace CxxpyTree

/-- A standard integer type in two's complement. -/
structure IntType where
  bits : Nat
  signed : Bool
  deriving DecidableEq, Repr

namespace IntType

/-- `std::numeric_limits<T>::digits`: the bits that hold the value, the sign bit left out. -/
def width (T : IntType) : Nat := if T.signed then T.bits - 1 else T.bits
def min (T : IntType) : Int := if T.signed then -2 ^ T.width else 0
def max (T : IntType) : Int := 2 ^ T.width - 1
def cast (T : IntType) (v : Int) : Int :=
  if T.signed then v.bmod (2 ^ T.bits) else v % 2 ^ T.bits

def uchar : IntType := ⟨8, false⟩
def widestSint : IntType := ⟨64, true⟩
def widestUint : IntType := ⟨64, false⟩
/-- `widest_int_t<T>`, which keeps the signedness of `T`. -/
def widest (T : IntType) : IntType := if T.signed then widestSint else widestUint

end IntType

/-- The `check_limits<R, V>` overloads, selected by signedness and by width. -/
def checkLimits (R V : IntType) (v : Int) : Bool :=
  if R.width = V.width then true
  else if R.signed = V.signed ∧ V.width < R.width then true
  else match R.signed, V.signed with
    | false, false => v ≤ R.max
    | true, true => R.min ≤ v && v ≤ R.max
    | false, true =>
      if V.width < R.width then V.cast R.min ≤ v else V.cast R.min ≤ v && v ≤ V.cast R.max
    | true, false => if V.width < R.width then true else v ≤ V.cast R.max

/-- What `strtoll` and `strtoull` report: the value, the text `*end` points at, and `ERANGE`. -/
structure Conversion where
  value : Int
  stop : CStr
  erange : Bool
  deriving DecidableEq, Repr

/-- The number a run of decimal digits denotes, leading zeros included. -/
def decimal (digits : CStr) : Nat := Nat.ofDigitChars 10 digits 0

def unsign : CStr → CStr
  | '-' :: rest | '+' :: rest => rest
  | rest => rest

/-- ISO C `strtoll` (signed `T`) and `strtoull` (unsigned `T`) in base 10: white space, one
optional sign, digits. The unsigned one negates the converted value in the result type. -/
def strto (T : IntType) (str : CStr) : Conversion :=
  let body := str.dropWhile isspace
  let negative := body.head? == some '-'
  let digits := (unsign body).takeWhile isdigit
  let stop := (unsign body).dropWhile isdigit
  let magnitude : Int := decimal digits
  let value := if negative then -magnitude else magnitude
  if digits = [] then ⟨0, str, false⟩
  else if T.signed then
    if value < T.min then ⟨T.min, stop, true⟩
    else if T.max < value then ⟨T.max, stop, true⟩
    else ⟨value, stop, false⟩
  else if T.max < magnitude then ⟨T.max, stop, true⟩
  else ⟨T.cast value, stop, false⟩

def numHead (T : IntType) : CStr → Bool
  | [] => false
  | c :: _ => isdigit c || (T.signed && (c == '-' || c == '+'))

/-- The value and the rest of the text, or nothing with `errno` set. -/
def parseNumCstdlib (T : IntType) (str : CStr) : Option (Int × CStr) :=
  if !numHead T str then none
  else
    let r := strto T str
    if r.erange then none
    else if r.stop.length = str.length then none
    else some (r.value, r.stop)

def parseNum (T : IntType) (str : CStr) : Option Int :=
  match parseNumCstdlib T.widest str with
  | none => none
  | some (val, stop) =>
    if !checkLimits T T.widest val then none
    else if stop ≠ [] then none
    else some val

/-- A non-empty run of decimal digits. -/
def IsNumeral (str : CStr) : Prop := str ≠ [] ∧ ∀ c ∈ str, isdigit c = true

instance (str : CStr) : Decidable (IsNumeral str) :=
  decidable_of_iff (str ≠ [] ∧ str.all isdigit = true) (and_congr_right' List.all_eq_true)

theorem unsign_digit {c : Char} {rest : CStr} (digit : isdigit c = true) :
    unsign (c :: rest) = c :: rest := by
  have codes := isdigit_iff.mp digit
  unfold unsign
  split
  · next same => cases same; exact absurd codes (by decide)
  · next same => cases same; exact absurd codes (by decide)
  · rfl

theorem strto_widestUint {str : CStr} (head : numHead IntType.widestUint str = true) :
    strto IntType.widestUint str =
      if 2 ^ 64 ≤ decimal (str.takeWhile isdigit) then ⟨2 ^ 64 - 1, str.dropWhile isdigit, true⟩
      else ⟨decimal (str.takeWhile isdigit), str.dropWhile isdigit, false⟩ := by
  cases str with
  | nil => simp [numHead] at head
  | cons c rest =>
    have digit : isdigit c = true := by simpa [numHead, IntType.widestUint] using head
    have codes := isdigit_iff.mp digit
    have solid : isspace c = false := by
      rw [Bool.eq_false_iff, ne_eq, isspace_iff]
      omega
    have positive : ((c :: rest).head? == some '-') = false := by
      simp only [List.head?_cons, beq_eq_false_iff_ne, ne_eq, Option.some.injEq]
      rintro rfl
      exact absurd codes (by decide)
    have some_digit : (c :: rest).takeWhile isdigit ≠ [] := by simp [digit]
    have body : (c :: rest).dropWhile isspace = c :: rest := List.dropWhile_cons_of_neg (by simp [solid])
    have bound : ∀ n : Nat, ((2 : Int) ^ 64 - 1 < n ↔ 2 ^ 64 ≤ n) := by intro n; norm_num; omega
    simp only [strto, body, unsign_digit digit, positive, some_digit, IntType.widestUint, IntType.max,
      IntType.width, IntType.cast, Bool.false_eq_true, if_false, bound]
    by_cases big : 2 ^ 64 ≤ decimal ((c :: rest).takeWhile isdigit)
    · rw [if_pos big, if_pos big]
    · have fits : (decimal ((c :: rest).takeWhile isdigit) : Int) < 2 ^ 64 := by
        exact_mod_cast Nat.lt_of_not_le big
      rw [if_neg big, if_neg big, Int.emod_eq_of_lt (Int.natCast_nonneg _) fits]

theorem parseNum_eq_some {T : IntType} {str : CStr} {v : Int} : parseNum T str = some v ↔
    parseNumCstdlib T.widest str = some (v, []) ∧ checkLimits T T.widest v = true := by
  unfold parseNum
  rcases parseNumCstdlib T.widest str with _ | ⟨val, stop⟩
  · simp
  · by_cases limits : checkLimits T T.widest val = true
    · by_cases ended : stop = []
      · subst ended
        simp only [limits, Bool.not_true, Bool.false_eq_true, if_false, ne_eq, not_true_eq_false, Option.some.injEq,
          Prod.mk.injEq, and_true]
        exact ⟨fun same => ⟨same, same ▸ limits⟩, And.left⟩
      · simp [limits, ended]
    · simp only [limits, Bool.not_false, if_true, reduceCtorEq, Option.some.injEq, Prod.mk.injEq, false_iff]
      rintro ⟨⟨rfl, -⟩, inside⟩
      exact limits inside

private theorem numHead_widestUint {str : CStr} :
    numHead IntType.widestUint str = true ↔ str.takeWhile isdigit ≠ [] := by
  cases str with
  | nil => simp [numHead]
  | cons c rest => by_cases digit : isdigit c = true <;> simp [numHead, IntType.widestUint, digit]

/-- What follows the first digits, when there are some, is shorter than the text. -/
theorem rest_shorter {str : CStr} (digits : str.takeWhile isdigit ≠ []) :
    (str.dropWhile isdigit).length ≠ str.length := by
  intro same
  have whole := congrArg List.length (List.takeWhile_append_dropWhile (p := isdigit) (l := str))
  rw [List.length_append, same] at whole
  exact digits (List.length_eq_zero_iff.mp (by omega))

theorem parseNumCstdlib_widestUint {str stop : CStr} {v : Int} :
    parseNumCstdlib IntType.widestUint str = some (v, stop) ↔ str.takeWhile isdigit ≠ [] ∧
      decimal (str.takeWhile isdigit) < 2 ^ 64 ∧ v = decimal (str.takeWhile isdigit) ∧ stop = str.dropWhile isdigit := by
  unfold parseNumCstdlib
  by_cases digits : str.takeWhile isdigit = []
  · have none_first : numHead IntType.widestUint str = false := by
      rw [Bool.eq_false_iff, ne_eq, numHead_widestUint]
      exact fun other => other digits
    simp [none_first, digits]
  · have head := numHead_widestUint.mpr digits
    rw [head, strto_widestUint head]
    by_cases big : 2 ^ 64 ≤ decimal (str.takeWhile isdigit)
    · simp only [if_pos big, Bool.not_true, Bool.false_eq_true, if_false, if_true, reduceCtorEq, false_iff]
      exact fun fits => absurd fits.2.1 (Nat.not_lt.mpr big)
    · simp only [if_neg big, Bool.not_true, Bool.false_eq_true, if_false, rest_shorter digits, Option.some.injEq,
        Prod.mk.injEq, Nat.lt_of_not_le big, ne_eq, digits, not_false_eq_true, true_and]
      exact and_congr eq_comm eq_comm

private theorem checkLimits_uchar (n : Nat) : checkLimits IntType.uchar IntType.widestUint n = true ↔ n ≤ 255 := by
  simp only [checkLimits, IntType.uchar, IntType.widestUint, IntType.width, IntType.max]
  simp only [Bool.false_eq_true, if_false, Nat.reduceEqDiff, Nat.reduceLT, and_false]
  rw [decide_eq_true_eq]
  omega

/-- `parse_num` of an `unsigned char` accepts the numerals up to 255, leading zeros allowed. -/
theorem parseNum_uchar_eq_some {str : CStr} {v : Int} :
    parseNum IntType.uchar str = some v ↔ IsNumeral str ∧ decimal str ≤ 255 ∧ v = decimal str := by
  have all_taken : (∀ c ∈ str, isdigit c = true) → str.takeWhile isdigit = str :=
    fun digits => List.takeWhile_eq_self_iff.mpr digits
  rw [parseNum_eq_some, show IntType.uchar.widest = IntType.widestUint from rfl, parseNumCstdlib_widestUint]
  constructor
  · rintro ⟨⟨nonempty, -, rfl, ended⟩, small⟩
    have digits := List.dropWhile_eq_nil_iff.mp ended.symm
    rw [all_taken digits] at nonempty small ⊢
    exact ⟨⟨nonempty, digits⟩, (checkLimits_uchar _).mp small, rfl⟩
  · rintro ⟨⟨nonempty, digits⟩, small, rfl⟩
    have ended : str.dropWhile isdigit = [] := List.dropWhile_eq_nil_iff.mpr digits
    rw [all_taken digits, ended]
    exact ⟨⟨nonempty, by omega, rfl, rfl⟩, (checkLimits_uchar _).mpr small⟩

end CxxpyTree
