import CxxpyTree.CheckLimits
import CxxpyTree.Parser

/-! What `parse_num` accepts, at every integer type up to 64 bits. -/

namespace CxxpyTree

/-- The number a text denotes: a numeral, for a signed type after at most one sign. -/
inductive Denotes (T : IntType) : CStr → Int → Prop
  | plain {digits : CStr} : IsNumeral digits → Denotes T digits (decimal digits)
  | plus {digits : CStr} : T.signed = true → IsNumeral digits → Denotes T ('+' :: digits) (decimal digits)
  | minus {digits : CStr} : T.signed = true → IsNumeral digits → Denotes T ('-' :: digits) (-decimal digits)

/-- The sign and the digits at the head of a text, as `strtoll` reads them. -/
def signedValue (str : CStr) : Int :=
  if str.head? = some '-' then -decimal ((unsign str).takeWhile isdigit) else decimal ((unsign str).takeWhile isdigit)

theorem isspace_of_isdigit {c : Char} (digit : isdigit c = true) : isspace c = false := by
  have codes := isdigit_iff.mp digit
  rw [Bool.eq_false_iff, ne_eq, isspace_iff]
  omega

theorem numHead_widestSint {str : CStr} (head : numHead IntType.widestSint str = true) :
    str.dropWhile isspace = str := by
  cases str with
  | nil => rfl
  | cons c rest =>
    refine List.dropWhile_cons_of_neg ?_
    simp only [numHead, IntType.widestSint, Bool.true_and, Bool.or_eq_true, beq_iff_eq] at head
    rcases head with digit | rfl | rfl
    · simp [isspace_of_isdigit digit]
    · decide
    · decide

/-- Where there are digits after the sign, the head is a digit or a sign. -/
theorem numHead_of_digits {str : CStr} (digits : (unsign str).takeWhile isdigit ≠ []) :
    numHead IntType.widestSint str = true := by
  unfold unsign at digits
  split at digits
  · rfl
  · rfl
  · cases str with
    | nil => exact absurd rfl digits
    | cons c rest =>
      by_cases digit : isdigit c = true
      · simp [numHead, digit]
      · simp [digit] at digits

/-- What is left after the digits, when there are some, is shorter than the text. -/
theorem signed_rest_shorter {str : CStr} (digits : (unsign str).takeWhile isdigit ≠ []) :
    ((unsign str).dropWhile isdigit).length ≠ str.length := by
  have shorter := rest_shorter digits
  have fewer : ((unsign str).dropWhile isdigit).length ≤ (unsign str).length := (List.dropWhile_sublist _).length_le
  have unsigned : (unsign str).length ≤ str.length := by
    unfold unsign
    split <;> simp
  omega

theorem strto_widestSint {str : CStr} (head : numHead IntType.widestSint str = true)
    (digits : (unsign str).takeWhile isdigit ≠ []) :
    strto IntType.widestSint str =
      if signedValue str < IntType.widestSint.min then ⟨IntType.widestSint.min, (unsign str).dropWhile isdigit, true⟩
      else if IntType.widestSint.max < signedValue str then
        ⟨IntType.widestSint.max, (unsign str).dropWhile isdigit, true⟩
      else ⟨signedValue str, (unsign str).dropWhile isdigit, false⟩ := by
  have value : (if (str.head? == some '-') = true then -(decimal ((unsign str).takeWhile isdigit) : Int)
      else decimal ((unsign str).takeWhile isdigit)) = signedValue str := by simp [signedValue]
  simp only [strto, numHead_widestSint head, if_neg digits, value]
  rfl

theorem strto_no_digits {str : CStr} (head : numHead IntType.widestSint str = true)
    (digits : (unsign str).takeWhile isdigit = []) : strto IntType.widestSint str = ⟨0, str, false⟩ := by
  simp only [strto, numHead_widestSint head, digits, if_true]

theorem parseNumCstdlib_widestSint {str stop : CStr} {v : Int} :
    parseNumCstdlib IntType.widestSint str = some (v, stop) ↔ (unsign str).takeWhile isdigit ≠ [] ∧
      IntType.widestSint.Holds (signedValue str) ∧ v = signedValue str ∧ stop = (unsign str).dropWhile isdigit := by
  unfold parseNumCstdlib
  by_cases digits : (unsign str).takeWhile isdigit = []
  · -- A lone sign passes the head check, but `strtoll` then leaves `end` at the start.
    by_cases head : numHead IntType.widestSint str = true
    · simp [head, strto_no_digits head digits, digits]
    · simp [head, digits]
  · have head := numHead_of_digits digits
    rw [head, strto_widestSint head digits]
    by_cases low : signedValue str < IntType.widestSint.min
    · simp [low, IntType.Holds, not_le.mpr low]
    · by_cases high : IntType.widestSint.max < signedValue str
      · simp [low, high, IntType.Holds, not_le.mpr high]
      · have held : IntType.widestSint.Holds (signedValue str) := ⟨not_lt.mp low, not_lt.mp high⟩
        simp only [low, high, Bool.not_true, Bool.false_eq_true, if_false, signed_rest_shorter digits,
          Option.some.injEq, Prod.mk.injEq, held, ne_eq, digits, not_false_eq_true, true_and]
        exact and_congr eq_comm eq_comm

theorem isNumeral_iff {str : CStr} : IsNumeral str ↔ str.takeWhile isdigit ≠ [] ∧ str.dropWhile isdigit = [] := by
  rw [List.dropWhile_eq_nil_iff]
  constructor
  · rintro ⟨nonempty, digits⟩
    rw [List.takeWhile_eq_self_iff.mpr digits]
    exact ⟨nonempty, digits⟩
  · rintro ⟨some_digit, digits⟩
    rw [List.takeWhile_eq_self_iff.mpr digits] at some_digit
    exact ⟨some_digit, digits⟩

theorem IsNumeral.takeWhile {str : CStr} (numeral : IsNumeral str) : str.takeWhile isdigit = str :=
  List.takeWhile_eq_self_iff.mpr numeral.2

/-- A numeral starts with a digit. -/
theorem IsNumeral.unsign {str : CStr} (numeral : IsNumeral str) : unsign str = str ∧ str.head? ≠ some '-' := by
  obtain ⟨nonempty, digits⟩ := numeral
  cases str with
  | nil => exact absurd rfl nonempty
  | cons c rest =>
    have digit := digits c List.mem_cons_self
    refine ⟨unsign_digit digit, ?_⟩
    rw [List.head?_cons, ne_eq, Option.some.injEq]
    rintro rfl
    exact absurd digit (by decide)

theorem denotes_signed {T : IntType} (signed : T.signed = true) {str : CStr} {v : Int} :
    Denotes T str v ↔ IsNumeral (unsign str) ∧ v = signedValue str := by
  constructor
  · rintro (numeral | ⟨-, numeral⟩ | ⟨-, numeral⟩)
    · obtain ⟨same, positive⟩ := numeral.unsign
      rw [signedValue, if_neg positive, same, numeral.takeWhile]
      exact ⟨numeral, rfl⟩
    · exact ⟨numeral, by simp [signedValue, CxxpyTree.unsign, numeral.takeWhile]⟩
    · exact ⟨numeral, by simp [signedValue, CxxpyTree.unsign, numeral.takeWhile]⟩
  · rintro ⟨numeral, rfl⟩
    unfold CxxpyTree.unsign at numeral
    split at numeral
    · next rest =>
      have value : signedValue ('-' :: rest) = -decimal rest := by
        simp [signedValue, CxxpyTree.unsign, numeral.takeWhile]
      exact value ▸ Denotes.minus signed numeral
    · next rest =>
      have value : signedValue ('+' :: rest) = decimal rest := by
        simp [signedValue, CxxpyTree.unsign, numeral.takeWhile]
      exact value ▸ Denotes.plus signed numeral
    · obtain ⟨same, positive⟩ := numeral.unsign
      have value : signedValue str = decimal str := by
        rw [signedValue, if_neg positive, same, numeral.takeWhile]
      exact value ▸ Denotes.plain numeral

theorem denotes_unsigned {T : IntType} (unsigned : T.signed = false) {str : CStr} {v : Int} :
    Denotes T str v ↔ IsNumeral str ∧ v = decimal str := by
  constructor
  · rintro (numeral | ⟨signed, -⟩ | ⟨signed, -⟩)
    · exact ⟨numeral, rfl⟩
    · simp [unsigned] at signed
    · simp [unsigned] at signed
  · rintro ⟨numeral, rfl⟩
    exact .plain numeral

theorem IntType.widest_sign (T : IntType) : T.widest.signed = T.signed := by
  unfold IntType.widest
  split
  · next signed => exact signed.symm
  · next unsigned => exact (Bool.eq_false_iff.mpr unsigned).symm

theorem IntType.width_le_widest {T : IntType} (fits : T.bits ≤ 64) : T.width ≤ T.widest.width := by
  unfold IntType.widest
  split
  · next signed => simp only [IntType.widestSint, IntType.width, signed, if_true]; omega
  · next unsigned => simp only [IntType.widestUint, IntType.width, unsigned, Bool.false_eq_true, if_false]; omega

theorem IntType.Holds.widest {T : IntType} (fits : T.bits ≤ 64) {v : Int} (held : T.Holds v) : T.widest.Holds v :=
  held.widen (IntType.width_le_widest fits) (fun unsigned => T.widest_sign.symm.trans unsigned)

/-- Narrowing from the widest type keeps the signedness, so nothing but the range is tested. -/
theorem checkLimits_widest {T : IntType} (fits : T.bits ≤ 64) {v : Int} (held : T.widest.Holds v) :
    checkLimits T T.widest v = true ↔ T.Holds v := by
  have sign := T.widest_sign
  have narrow := IntType.width_le_widest fits
  unfold checkLimits
  by_cases same : T.width = T.widest.width
  · rw [if_pos same]
    exact iff_of_true rfl (held.widen same.ge (fun unsigned => sign.trans unsigned))
  · rw [if_neg same, if_neg (fun wide => absurd wide.2 (not_lt.mpr narrow))]
    cases signed : T.signed with
    | false =>
      have least : T.min ≤ v := by
        rw [IntType.min_unsigned signed, ← IntType.min_unsigned (sign.trans signed)]
        exact held.1
      simp only [sign.trans signed, decide_eq_true_eq]
      exact ⟨fun most => ⟨least, most⟩, And.right⟩
    | true =>
      simp only [sign.trans signed, Bool.and_eq_true, decide_eq_true_eq]
      rfl

theorem parseNum_eq_some_iff {T : IntType} (fits : T.bits ≤ 64) {str : CStr} {v : Int} :
    parseNum T str = some v ↔ Denotes T str v ∧ T.Holds v := by
  rw [parseNum_eq_some]
  cases signed : T.signed with
  | false =>
    have widest : T.widest = IntType.widestUint := by simp [IntType.widest, signed]
    have below (n : Nat) : T.widest.Holds n ↔ n < 2 ^ 64 := by
      simp only [widest, IntType.Holds, IntType.min, IntType.max, IntType.widestUint, IntType.width_unsigned]
      norm_num
      omega
    rw [denotes_unsigned signed, widest, parseNumCstdlib_widestUint, ← widest]
    constructor
    · rintro ⟨⟨digits, small, rfl, ended⟩, limits⟩
      have numeral := isNumeral_iff.mpr ⟨digits, ended.symm⟩
      rw [numeral.takeWhile] at small limits ⊢
      exact ⟨⟨numeral, rfl⟩, (checkLimits_widest fits ((below _).mpr small)).mp limits⟩
    · rintro ⟨⟨numeral, rfl⟩, held⟩
      have wide := held.widest fits
      obtain ⟨digits, ended⟩ := isNumeral_iff.mp numeral
      rw [numeral.takeWhile] at digits ⊢
      exact ⟨⟨digits, (below _).mp wide, rfl, ended.symm⟩, (checkLimits_widest fits wide).mpr held⟩
  | true =>
    have widest : T.widest = IntType.widestSint := by simp [IntType.widest, signed]
    rw [denotes_signed signed, isNumeral_iff, widest, parseNumCstdlib_widestSint, ← widest]
    constructor
    · rintro ⟨⟨digits, held, rfl, ended⟩, limits⟩
      exact ⟨⟨⟨digits, ended.symm⟩, rfl⟩, (checkLimits_widest fits held).mp limits⟩
    · rintro ⟨⟨⟨digits, ended⟩, rfl⟩, held⟩
      have wide := held.widest fits
      exact ⟨⟨digits, wide, rfl, ended.symm⟩, (checkLimits_widest fits wide).mpr held⟩

theorem listElemIdx_numeral {str : CStr} (numeral : IsNumeral str) (pos : Pos) (s : ParserState σ) :
    Parser.listElemIdx str pos s =
      if decimal str ≤ 255 then .ok (UInt8.ofNat (decimal str)) s else .error (.error ⟨pos, .listElemIndex str⟩) s := by
  unfold Parser.listElemIdx
  by_cases small : decimal str ≤ 255
  · rw [if_pos small, parseNum_uchar_eq_some.mpr ⟨numeral, small, rfl⟩]
    rfl
  · have refused : parseNum IntType.uchar str = none := by
      rw [Option.eq_none_iff_forall_not_mem]
      exact fun v accepted => small (parseNum_uchar_eq_some.mp accepted).2.1
    rw [if_neg small, refused]
    rfl

/-- `parse_num` accepts the texts that denote a number of `T`, with that number; a `NUM` token is a list element
index when it denotes at most 255. -/
theorem parseNum_exact {T : IntType} (fits : T.bits ≤ 64) :
    (∀ str v, parseNum T str = some v ↔ Denotes T str v ∧ T.Holds v) ∧
    ∀ (σ : Type) (str : CStr), IsNumeral str → ∀ (pos : Pos) (s : ParserState σ), Parser.listElemIdx str pos s =
      if decimal str ≤ 255 then .ok (UInt8.ofNat (decimal str)) s
      else .error (.error ⟨pos, .listElemIndex str⟩) s :=
  ⟨fun _ _ => parseNum_eq_some_iff fits, fun _ _ numeral => listElemIdx_numeral numeral⟩

/-- `parse_num<signed char>` takes `-0128` and refuses `128`. -/
theorem parseNum_exact_schar : parseNum ⟨8, true⟩ ['-', '0', '1', '2', '8'] = some (-128) ∧
    parseNum ⟨8, true⟩ ['1', '2', '8'] = none := by
  obtain ⟨accepts, -⟩ := parseNum_exact (T := ⟨8, true⟩) (by decide)
  constructor
  · have denotes : Denotes ⟨8, true⟩ ['-', '0', '1', '2', '8'] (-decimal ['0', '1', '2', '8']) :=
      .minus rfl ⟨by decide, List.all_eq_true.mp (by decide)⟩
    exact (accepts _ _).mpr ⟨denotes, by decide⟩
  · rw [Option.eq_none_iff_forall_not_mem]
    intro v accepted
    obtain ⟨denotes, held⟩ := (accepts _ _).mp accepted
    cases denotes with
    | plain _ => exact absurd held (by decide)

end CxxpyTree
