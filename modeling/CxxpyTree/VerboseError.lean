import CxxpyTree.Lib.Lines
import CxxpyTree.LiteralSyntax

/-! `Parser::verror` of tree/parser.cpp: the line of an error and the caret below it. Pointers into
the input are offsets from `input_beg`. -/

namespace CxxpyTree

/-- `Sys::vformat` on the text that the format stands for: `vsnprintf` leaves out all behind the
first `sizeof buf - 2` characters. -/
def vformat (text : List Char) : List Char := text.take 254

structure Thrown where
  what : List Char
  msgs : List (List Char) := []
  deriving DecidableEq, Repr

def buildLnPtrs (input : List Char) : List Nat := Lines.starts newline input

/-- The number of characters that `ReprPrint<char>` says it has printed. -/
def reprSize (ch : Char) (str : Bool) : Nat :=
  if ch == '\\' || ch == '\x0c' || ch == '\n' || ch == '\r' || ch == '\t' || ch == '\x0b' then 2
  else if ch == '"' then if str then 2 else 1
  else if ch == '\'' then if str then 1 else 2
  else if isascii ch && !iscntrl ch then 1
  else 3 + if str || 16 ≤ ch.toNat then 1 else 0

/-- The loop of `quote_non_plain` at `p`, with the text it prints and what it adds to `n`. -/
def quoteNonPlainLoop (ptr : Nat) : (p : Nat) → List Char → Except Stop (List Char × Nat)
  | _, [] => .ok ([], 0)
  | p, c :: rest =>
    if isPlainChar c then do
      let (ost, n) ← quoteNonPlainLoop ptr (p + 1) rest
      return (c :: ost, n)
    else do
      let r := reprSize c true
      if p < ptr ∧ ¬ r > 0 then throw .assertFailed
      let (ost, n) ← quoteNonPlainLoop ptr (p + 1) rest
      return (reprChar c true ++ ost, if p < ptr then r - 1 + n else n)

def quoteNonPlain (input : List Char) (first last ptr : Nat) : Except Stop (List Char × Nat) :=
  if ¬ (ptr ≥ first ∧ ptr ≤ last) then .error .assertFailed
  else quoteNonPlainLoop ptr first ((input.take last).drop first)

def errorHead (inputName : CStr) (pos : Pos) : List Char :=
  inputName ++ ':' :: decimalText pos.line ++ ':' :: decimalText pos.col ++ [':', ' ']

/-- `beg` and `end`, as the table has them. -/
def lineRange (input : List Char) (line : Nat) : Nat × Nat :=
  let lnPtrs := buildLnPtrs input
  ((lnPtrs[line - 1]?).getD 0, if line < lnPtrs.length then (lnPtrs[line]?).getD 0 else input.length)

/-- `end` without the newline in front of it. -/
def lineStop (input : List Char) (line : Nat) : Nat :=
  let (first, last) := lineRange input line
  if last > first ∧ input[last - 1]? = some newline then last - 1 else last

/-- The assertions of `verror`. -/
structure VerrorAsserts (input : List Char) (pos : Pos) : Prop where
  table : 0 < (buildLnPtrs input).length
  col : 0 < pos.col
  line : 0 < pos.line ∧ pos.line ≤ (buildLnPtrs input).length
  range : (lineRange input pos.line).1 ≤ (lineRange input pos.line).2 ∧ (lineRange input pos.line).2 ≤ input.length
  inside : (lineRange input pos.line).1 + (pos.col - 1) ≤ lineStop input pos.line

theorem verrorAsserts_iff {input : List Char} {pos : Pos} : VerrorAsserts input pos ↔
    0 < (buildLnPtrs input).length ∧ 0 < pos.col ∧ (0 < pos.line ∧ pos.line ≤ (buildLnPtrs input).length) ∧
      ((lineRange input pos.line).1 ≤ (lineRange input pos.line).2 ∧ (lineRange input pos.line).2 ≤ input.length) ∧
      (lineRange input pos.line).1 + (pos.col - 1) ≤ lineStop input pos.line :=
  ⟨fun h => ⟨h.table, h.col, h.line, h.range, h.inside⟩, fun ⟨a, b, c, d, e⟩ => ⟨a, b, c, d, e⟩⟩

instance {input : List Char} {pos : Pos} : Decidable (VerrorAsserts input pos) :=
  decidable_of_iff _ verrorAsserts_iff.symm

/-- `input` is what lies between `input_beg` and `input_end`. -/
def verror (verboseError : Bool) (inputName : CStr) (input : List Char) (pos : Pos) (msg : Message) :
    Except Stop Thrown := do
  let fmt := fun str => vformat (errorHead inputName pos ++ str)
  let what := fmt (vformat msg.text.toList)
  if verboseError then
    if ¬ VerrorAsserts input pos then throw .assertFailed
    let first := (lineRange input pos.line).1
    let (quo, n) ← quoteNonPlain input first (lineStop input pos.line) (first + (pos.col - 1))
    return { what, msgs := [fmt quo, fmt (List.replicate (pos.col - 1 + n) ' ' ++ ['^'])] }
  else return { what }

/-- Every character of an input is a byte. -/
def IsBytes (input : List Char) : Prop := ∀ c ∈ input, c.toNat < 256

instance (input : List Char) : Decidable (IsBytes input) := List.decidableBAll _ _

/-- The text with its non-plain characters as escapes. -/
def escaped (text : List Char) : List Char := text.flatMap fun c => if isPlainChar c then [c] else reprChar c true

def escapedSize (c : Char) : Nat := if isPlainChar c then 1 else reprSize c true

section Escapes
variable {c : Char} {text a b : List Char}

theorem reprSize_pos (c : Char) (str : Bool) : 0 < reprSize c str := by
  unfold reprSize
  repeat' split
  all_goals omega

theorem length_reprChar (byte : c.toNat < 256) : (reprChar c true).length = reprSize c true := by
  have short : (Nat.toDigits 16 c.toNat).length ≤ 2 := (Nat.length_toDigits_le_iff (by decide) (by decide)).mpr byte
  unfold reprChar reprSize
  by_cases quoted : c ∈ ['\\', '\x0c', '\n', '\r', '\t', '\x0b', '"', '\'']
  · simp only [List.mem_cons, List.not_mem_nil, or_false] at quoted
    rcases quoted with rfl | rfl | rfl | rfl | rfl | rfl | rfl | rfl <;> rfl
  · simp only [List.mem_cons, List.not_mem_nil, or_false, not_or] at quoted
    obtain ⟨h1, h2, h3, h4, h5, h6, h7, h8⟩ := quoted
    simp only [beq_eq_false_iff_ne.mpr h1, beq_eq_false_iff_ne.mpr h2, beq_eq_false_iff_ne.mpr h3,
      beq_eq_false_iff_ne.mpr h4, beq_eq_false_iff_ne.mpr h5, beq_eq_false_iff_ne.mpr h6, beq_eq_false_iff_ne.mpr h7,
      beq_eq_false_iff_ne.mpr h8, Bool.or_false, Bool.false_eq_true, if_false, if_true, Bool.true_or]
    split
    · rfl
    · simp only [List.length_cons, List.length_append, List.length_replicate]
      omega

theorem length_escaped (bytes : IsBytes text) : (escaped text).length = (text.map escapedSize).sum := by
  induction text with
  | nil => rfl
  | cons c text ih =>
    obtain ⟨byte, bytes⟩ := List.forall_mem_cons.mp bytes
    have head : (if isPlainChar c then [c] else reprChar c true).length = escapedSize c := by
      unfold escapedSize
      split
      · rfl
      · exact length_reprChar byte
    rw [escaped, List.flatMap_cons, List.length_append, head, ← escaped, ih bytes, List.map_cons, List.sum_cons]

/-- What `n` adds to the columns of the characters is the width of their escapes. -/
theorem corrected_column (bytes : IsBytes text) :
    text.length + (text.map (escapedSize · - 1)).sum = (escaped text).length := by
  rw [length_escaped bytes]
  clear bytes
  induction text with
  | nil => rfl
  | cons c text ih =>
    have some : 0 < escapedSize c := by
      unfold escapedSize
      split
      · exact Nat.one_pos
      · exact reprSize_pos c true
    simp only [List.length_cons, List.map_cons, List.sum_cons]
    omega

theorem quoteNonPlainLoop_run : ∀ (text : List Char) (ptr p : Nat), quoteNonPlainLoop ptr p text =
    .ok (escaped text, ((text.take (ptr - p)).map (escapedSize · - 1)).sum)
  | [], _, _ => by simp [quoteNonPlainLoop, escaped]
  | c :: rest, ptr, p => by
    have onward := quoteNonPlainLoop_run rest ptr (p + 1)
    have sizes : ptr - p = if p < ptr then ptr - (p + 1) + 1 else 0 := by split <;> omega
    have done : ¬ p < ptr → ptr - (p + 1) = 0 := by omega
    unfold quoteNonPlainLoop
    rw [onward, sizes]
    by_cases plain : isPlainChar c = true <;> by_cases before : p < ptr
    · simp [plain, before, escapedSize, escaped, bind, Except.bind, pure, Except.pure]
    · simp [plain, before, done before, escaped, bind, Except.bind, pure, Except.pure]
    · simp [plain, before, reprSize_pos, escapedSize, escaped, bind, Except.bind, pure, Except.pure]
    · simp [plain, before, done before, escaped, bind, Except.bind, pure, Except.pure]

end Escapes

section Position
variable {before rest head left right tail : List Char}

/-- Inside a line its column is counted from the start of the line. -/
theorem behind_around (begins : head = [] ∨ ∃ init, head = init ++ [newline]) (inside : newline ∉ left) :
    Pos.behind (head ++ left) = ⟨1 + head.count newline, 1 + left.length⟩ := by
  have whole : left.reverse.takeWhile (· != newline) = left.reverse := by
    apply List.takeWhile_eq_self_iff.mpr
    intro c member
    simp only [bne_iff_ne, ne_eq]
    rintro rfl
    exact inside (List.mem_reverse.mp member)
  have stops : head.reverse.takeWhile (· != newline) = [] := by
    rcases begins with rfl | ⟨init, rfl⟩ <;> simp
  rw [Pos.behind, List.count_append, List.count_eq_zero.mpr inside, List.reverse_append,
    List.takeWhile_append_of_pos (List.takeWhile_eq_self_iff.mp whole), stops]
  simp

variable (around : Lines.Around newline head left right tail)
include around

theorem length_lnPtrs_around :
    (buildLnPtrs (head ++ left ++ (right ++ tail))).length = head.count newline + tail.count newline + 1 := by
  rw [buildLnPtrs, Lines.length_starts, around.count]

theorem lineRange_around : lineRange (head ++ left ++ (right ++ tail)) (1 + head.count newline) =
    (head.length, head.length + left.length + right.length + if tail = [] then 0 else 1) := by
  have next := around.next
  unfold lineRange
  dsimp only
  rw [length_lnPtrs_around around, Nat.add_comm 1, Nat.add_sub_cancel]
  simp only [buildLnPtrs, around.start, next, Option.getD_some]
  rcases around.tail with rfl | ⟨more, rfl⟩
  · simp [Nat.add_assoc]
  · simp

theorem lineStop_around : lineStop (head ++ left ++ (right ++ tail)) (1 + head.count newline) =
    head.length + left.length + right.length := by
  unfold lineStop
  rw [lineRange_around around]
  dsimp only
  rcases around.tail with rfl | ⟨more, rfl⟩
  · rw [if_neg, if_pos rfl, Nat.add_zero]
    rintro ⟨some, last⟩
    -- the last character of the text is one of the line
    have inside : newline ∈ left ++ right := by
      rw [List.append_nil, List.append_assoc, List.getElem?_append_right (by simp at some; omega)] at last
      exact List.mem_of_getElem? last
    exact around.no_sep inside
  · rw [if_neg (List.cons_ne_nil _ _), if_pos, Nat.add_sub_cancel]
    refine ⟨by omega, ?_⟩
    have before : head.length + left.length + right.length = (head ++ left ++ right).length := by simp [Nat.add_assoc]
    rw [Nat.add_sub_cancel, ← List.append_assoc, before, List.getElem?_append_right (Nat.le_refl _), Nat.sub_self]
    rfl

theorem verrorAsserts_around : VerrorAsserts (head ++ left ++ (right ++ tail)) (Pos.behind (head ++ left)) := by
  have stop := lineStop_around around
  have range := lineRange_around around
  have length := length_lnPtrs_around around
  rw [behind_around around.head around.left]
  refine ⟨by omega, by simp, ⟨by simp, by simp only; omega⟩, ?_, ?_⟩
  · rw [range]
    rcases around.tail with rfl | ⟨more, rfl⟩ <;> simp <;> omega
  · rw [range, stop]
    simp only
    omega

/-- In verbose mode the messages show the line around the place and the corrected column. -/
theorem verror_around (inputName : CStr) (msg : Message) :
    verror true inputName (head ++ left ++ (right ++ tail)) (Pos.behind (head ++ left)) msg =
      .ok { what := vformat (errorHead inputName (Pos.behind (head ++ left)) ++ vformat msg.text.toList)
            msgs := [vformat (errorHead inputName (Pos.behind (head ++ left)) ++ escaped (left ++ right)),
              vformat (errorHead inputName (Pos.behind (head ++ left)) ++
                (List.replicate (left.length + (left.map (escapedSize · - 1)).sum) ' ' ++ ['^']))] } := by
  have asserts := verrorAsserts_around around
  have located := behind_around around.head around.left
  have range := lineRange_around around
  have stop := lineStop_around around
  have line : ((head ++ left ++ (right ++ tail)).take (head.length + left.length + right.length)).drop head.length =
      left ++ right := by
    have cut : (head ++ left ++ (right ++ tail)).take (head.length + left.length + right.length) = head ++ (left ++ right) := by
      rw [show head ++ left ++ (right ++ tail) = head ++ (left ++ right) ++ tail by simp]
      exact List.take_left' (by simp [Nat.add_assoc])
    rw [cut, List.drop_left]
  have quoted : quoteNonPlain (head ++ left ++ (right ++ tail)) head.length (head.length + left.length + right.length)
      (head.length + left.length) = .ok (escaped (left ++ right), (left.map (escapedSize · - 1)).sum) := by
    unfold quoteNonPlain
    rw [if_neg (by omega), line, quoteNonPlainLoop_run, Nat.add_sub_cancel_left, List.take_left]
  rw [located] at asserts
  unfold verror
  rw [located]
  simp only [range, stop, asserts, Nat.add_sub_cancel_left, quoted, if_true, not_true_eq_false, if_false]
  rfl

end Position

end CxxpyTree
