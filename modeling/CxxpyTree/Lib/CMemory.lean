import CxxpyTree.Lib.Machine
import Mathlib.Tactic.Common

/-! C strings in a block of memory, and the functions of `<cstring>` that work on them one character at a
time. What an access outside the block does is left open: a write there ends the run, and a read ends it or
goes on with whatever stands there. -/

namespace CMemory
open Machine

abbrev Memory := Int → Char

inductive Stop where
  | outOfBounds (p : Int)
  | outOfFuel
  deriving DecidableEq, Repr

/-- The block, from 0 up to `size`; a lenient run goes on after a read outside it. -/
structure Block where
  size : Nat
  lenient : Bool

def Block.Contains (b : Block) (p : Int) : Prop := 0 ≤ p ∧ p < b.size

instance (b : Block) (p : Int) : Decidable (b.Contains p) := inferInstanceAs (Decidable (_ ∧ _))

abbrev Access := EStateM Stop Memory

section Operations
variable (b : Block)

def read (p : Int) : Access Char := fun mem =>
  if b.Contains p ∨ b.lenient = true then .ok (mem p) mem else .error (.outOfBounds p) mem

def write (p : Int) (c : Char) : Access Unit := fun mem =>
  if b.Contains p then .ok () (fun q => if q = p then c else mem q) else .error (.outOfBounds p) mem

def writeAll : Int → List Char → Access Unit
  | _, [] => pure ()
  | p, c :: str => do
    write b p c
    writeAll (p + 1) str

def readAll : Int → Nat → Access (List Char)
  | _, 0 => pure []
  | p, n + 1 => do
    let c ← read b p
    return c :: (← readAll (p + 1) n)

/-- Copies a string that stands elsewhere, with its NUL. -/
def strcpy (p : Int) (str : List Char) : Access Unit := writeAll b p (str ++ ['\x00'])

def memmove (dst src : Int) (n : Nat) : Access Unit := do writeAll b dst (← readAll b src n)

/-- The string that stands at `p`. -/
def scan : Nat → Int → Access (List Char)
  | 0, _ => throw .outOfFuel
  | fuel + 1, p => do
    let c ← read b p
    if c = '\x00' then return []
    else return c :: (← scan fuel (p + 1))

def strcat (p : Int) (str : List Char) : Access Unit := do
  let front ← scan b b.size p
  strcpy b (p + front.length) str

def strchrFrom (ch : Char) : Nat → Int → Access (Option Int)
  | 0, _ => throw .outOfFuel
  | fuel + 1, p => do
    let c ← read b p
    if c = ch then return some p
    else if c = '\x00' then return none
    else strchrFrom ch fuel (p + 1)

def strchr (p : Int) (ch : Char) : Access (Option Int) := strchrFrom b ch b.size p

def strrchrFrom (ch : Char) : Nat → Option Int → Int → Access (Option Int)
  | 0, _, _ => throw .outOfFuel
  | fuel + 1, last, p => do
    let c ← read b p
    let last := if c = ch then some p else last
    if c = '\x00' then return last
    else strrchrFrom ch fuel last (p + 1)

def strrchr (p : Int) (ch : Char) : Access (Option Int) := strrchrFrom b ch b.size none p

/-- `strcmp(p, str) == 0`, up to the first difference; `str` comes with its NUL. -/
def strcmpEq : Int → List Char → Access Bool
  | _, [] => return true
  | p, c :: str => do
    let d ← read b p
    if d ≠ c then return false
    else strcmpEq (p + 1) str

end Operations

/-- `str` stands at `p`. -/
def Stands (mem : Memory) : Int → List Char → Prop
  | _, [] => True
  | p, c :: str => mem p = c ∧ Stands mem (p + 1) str

section Stands
variable {mem mem' : Memory} {p : Int} {a b str : List Char} {c : Char}

theorem stands_append : Stands mem p (a ++ b) ↔ Stands mem p a ∧ Stands mem (p + a.length) b := by
  induction a generalizing p with
  | nil => simp [Stands]
  | cons c a ih =>
    have onward : p + 1 + a.length = p + (c :: a).length := by rw [List.length_cons]; push_cast; omega
    rw [List.cons_append, Stands, Stands, ih, onward, and_assoc]

/-- What stands somewhere stays when no character of it changes. -/
theorem Stands.frame (stands : Stands mem p str) (same : ∀ q, p ≤ q → q < p + str.length → mem' q = mem q) :
    Stands mem' p str := by
  induction str generalizing p with
  | nil => trivial
  | cons c str ih =>
    rw [List.length_cons] at same
    obtain ⟨here, rest⟩ := stands
    exact ⟨(same p (by omega) (by omega)).trans here, ih rest fun q low high => same q (by omega) (by omega)⟩

/-- No two strings of one length stand at one place. -/
theorem Stands.unique (left : Stands mem p a) (right : Stands mem p b) (same : a.length = b.length) : a = b := by
  induction a generalizing p b with
  | nil => exact (List.length_eq_zero_iff.mp same.symm).symm
  | cons c a ih =>
    cases b with
    | nil => cases same
    | cons d b =>
      rw [← left.1, ← right.1, ih left.2 right.2 (by simpa using same)]

end Stands

section Runs
variable {b : Block} {mem : Memory} {p : Int} {str : List Char} {c : Char}

theorem read_inside (low : 0 ≤ p) (high : p < b.size) : read b p mem = .ok (mem p) mem := if_pos (.inl ⟨low, high⟩)

/-- A run of writes leaves `str` at `p`, and what is elsewhere alone. -/
structure Writes (x : Access Unit) (mem : Memory) (p : Int) (str : List Char) (mem' : Memory) : Prop where
  ran : x mem = .ok () mem'
  stands : Stands mem' p str
  frame : ∀ q, q < p ∨ p + str.length ≤ q → mem' q = mem q

theorem write_inside (low : 0 ≤ p) (high : p < b.size) :
    write b p c mem = .ok () (fun q => if q = p then c else mem q) := if_pos ⟨low, high⟩

theorem write_run (mem : Memory) (c : Char) (low : 0 ≤ p) (high : p < b.size) :
    ∃ mem', write b p c mem = .ok () mem' ∧ mem' p = c ∧ ∀ q, q ≠ p → mem' q = mem q :=
  ⟨_, write_inside low high, if_pos rfl, fun _ other => if_neg other⟩

theorem writeAll_run (low : 0 ≤ p) (high : p + str.length ≤ b.size) : ∃ mem', Writes (writeAll b p str) mem p str mem' := by
  induction str generalizing p mem with
  | nil => exact ⟨mem, rfl, trivial, fun _ _ => rfl⟩
  | cons c str ih =>
    rw [List.length_cons] at high
    push_cast at high
    obtain ⟨mem', ran, stands, frame⟩ := @ih (fun q => if q = p then c else mem q) (p + 1) (by omega) (by omega)
    refine ⟨mem', ?_, ⟨?_, stands⟩, fun q outside => ?_⟩
    · rw [writeAll, bind_of_ok (write_inside low (by omega)), ran]
    · rw [frame p (.inl (by omega)), if_pos rfl]
    · rw [List.length_cons] at outside
      push_cast at outside
      rw [frame q (by omega), if_neg (by omega)]

theorem strcpy_run (low : 0 ≤ p) (high : p + str.length < b.size) :
    ∃ mem', Writes (strcpy b p str) mem p (str ++ ['\x00']) mem' := by
  refine writeAll_run low ?_
  rw [List.length_append, List.length_singleton]
  push_cast
  omega

theorem readAll_run (stands : Stands mem p str) (low : 0 ≤ p) (high : p + str.length ≤ b.size) :
    readAll b p str.length mem = .ok str mem := by
  induction str generalizing p with
  | nil => rfl
  | cons c str ih =>
    obtain ⟨here, rest⟩ := stands
    rw [List.length_cons] at high
    push_cast at high
    rw [List.length_cons, readAll, bind_of_ok (read_inside low (by omega)), bind_of_ok (ih rest (by omega) (by omega)), here]
    rfl

/-- A move leaves what stood at `src` at `dst`, wherever the two places are. -/
theorem memmove_run {dst : Int} (stands : Stands mem p str) (low : 0 ≤ p) (high : p + str.length ≤ b.size)
    (low' : 0 ≤ dst) (high' : dst + str.length ≤ b.size) :
    ∃ mem', Writes (memmove b dst p str.length) mem dst str mem' := by
  obtain ⟨mem', ran, written, frame⟩ := @writeAll_run b mem dst str low' high'
  exact ⟨mem', by rw [memmove, bind_of_ok (readAll_run stands low high), ran], written, frame⟩

end Runs

/-- The string `str` stands at `p`, inside the block. -/
structure StandsC (b : Block) (mem : Memory) (p : Int) (str : List Char) : Prop where
  stands : Stands mem p (str ++ ['\x00'])
  clean : '\x00' ∉ str
  low : 0 ≤ p
  high : p + str.length < b.size

section Strings
variable {b : Block} {mem : Memory} {p : Int} {str left right : List Char} {c ch : Char} {fuel : Nat}

/-- The first character of a string, and the string behind it. -/
theorem StandsC.cons (at_p : StandsC b mem p (c :: str)) :
    mem p = c ∧ c ≠ '\x00' ∧ p + 1 ≤ b.size ∧ StandsC b mem (p + 1) str := by
  obtain ⟨⟨here, rest⟩, clean, low, high⟩ := at_p
  rw [List.mem_cons, not_or] at clean
  rw [List.length_cons] at high
  push_cast at high
  exact ⟨here, Ne.symm clean.1, by omega, rest, clean.2, by omega, by omega⟩

/-- The end of a string is a string. -/
theorem StandsC.behind (at_p : StandsC b mem p (left ++ right)) : StandsC b mem (p + left.length) right := by
  obtain ⟨stands, clean, low, high⟩ := at_p
  rw [List.append_assoc, stands_append] at stands
  rw [List.mem_append, not_or] at clean
  rw [List.length_append] at high
  push_cast at high
  exact ⟨stands.2, clean.2, by omega, by omega⟩

theorem StandsC.nil (at_p : StandsC b mem p []) : read b p mem = .ok '\x00' mem := by
  rw [read_inside at_p.low (by simpa using at_p.high), at_p.stands.1]

theorem StandsC.head (at_p : StandsC b mem p (c :: str)) : read b p mem = .ok c mem := by
  have high := at_p.high
  rw [List.length_cons] at high
  push_cast at high
  rw [read_inside at_p.low (by omega), at_p.cons.1]

theorem StandsC.fueled (at_p : StandsC b mem p str) : str.length < b.size := by
  have low := at_p.low
  have high := at_p.high
  omega

theorem scan_fueled (at_p : StandsC b mem p str) (enough : str.length < fuel) : scan b fuel p mem = .ok str mem := by
  induction str generalizing p fuel with
  | nil =>
    obtain ⟨fuel, rfl⟩ := Nat.exists_eq_add_of_lt enough
    rw [scan, bind_of_ok at_p.nil]
    rfl
  | cons c str ih =>
    obtain ⟨fuel, rfl⟩ : ∃ n, fuel = n + 1 := ⟨fuel - 1, by omega⟩
    obtain ⟨-, solid, -, rest⟩ := at_p.cons
    rw [scan, bind_of_ok at_p.head, if_neg solid, bind_of_ok (ih rest (by simpa using enough))]
    rfl

theorem scan_run (at_p : StandsC b mem p str) : scan b b.size p mem = .ok str mem := scan_fueled at_p at_p.fueled

theorem strcat_run (at_p : StandsC b mem p left) (high : p + left.length + str.length < b.size) :
    ∃ mem', Writes (strcat b p str) mem (p + left.length) (str ++ ['\x00']) mem' := by
  have low := at_p.low
  obtain ⟨mem', ran, stands, frame⟩ := @strcpy_run b mem (p + left.length) str (by omega) high
  exact ⟨mem', by rw [strcat, bind_of_ok (scan_run at_p), ran], stands, frame⟩

/-- A copy and what is added to it. -/
theorem strcpy_strcat_run (mem : Memory) {more : List Char} (clean : '\x00' ∉ str) (low : 0 ≤ p)
    (high : p + str.length + more.length < b.size) :
    ∃ mem₁ mem₂, strcpy b p str mem = .ok () mem₁ ∧ strcat b p more mem₁ = .ok () mem₂ ∧
      Stands mem₂ p (str ++ more ++ ['\x00']) ∧
      ∀ q, q < p ∨ p + str.length + more.length + 1 ≤ q → mem₂ q = mem q := by
  obtain ⟨mem₁, copied⟩ := @strcpy_run b mem p str low (by omega)
  have at_p : StandsC b mem₁ p str := ⟨copied.stands, clean, low, by omega⟩
  obtain ⟨mem₂, added⟩ := @strcat_run b mem₁ p more str at_p high
  refine ⟨mem₁, mem₂, copied.ran, added.ran, ?_, fun q outside => ?_⟩
  · rw [List.append_assoc, stands_append]
    refine ⟨?_, added.stands⟩
    refine (stands_append.mp copied.stands).1.frame fun q _ high => added.frame q (.inl high)
  · have frame := copied.frame q
    have frame' := added.frame q
    simp only [List.length_append, List.length_singleton] at frame frame'
    push_cast at frame frame'
    rw [frame' (by omega), frame (by omega)]

theorem strchrFrom_none (at_p : StandsC b mem p str) (absent : ch ∉ str) (printable : ch ≠ '\x00')
    (enough : str.length < fuel) : strchrFrom b ch fuel p mem = .ok none mem := by
  induction str generalizing p fuel with
  | nil =>
    obtain ⟨fuel, rfl⟩ := Nat.exists_eq_add_of_lt enough
    rw [strchrFrom, bind_of_ok at_p.nil, if_neg (Ne.symm printable)]
    rfl
  | cons c str ih =>
    obtain ⟨fuel, rfl⟩ : ∃ n, fuel = n + 1 := ⟨fuel - 1, by omega⟩
    obtain ⟨-, solid, -, rest⟩ := at_p.cons
    rw [List.mem_cons, not_or] at absent
    rw [strchrFrom, bind_of_ok at_p.head, if_neg (Ne.symm absent.1), if_neg solid]
    exact ih rest absent.2 (by simpa using enough)

theorem strchrFrom_some (at_p : StandsC b mem p (left ++ ch :: right)) (absent : ch ∉ left)
    (enough : left.length < fuel) : strchrFrom b ch fuel p mem = .ok (some (p + left.length)) mem := by
  induction left generalizing p fuel with
  | nil =>
    obtain ⟨fuel, rfl⟩ : ∃ n, fuel = n + 1 := ⟨fuel - 1, by omega⟩
    rw [strchrFrom, bind_of_ok at_p.head, if_pos rfl, List.length_nil, Int.natCast_zero, Int.add_zero]
    rfl
  | cons c left ih =>
    obtain ⟨fuel, rfl⟩ : ∃ n, fuel = n + 1 := ⟨fuel - 1, by omega⟩
    rw [List.cons_append] at at_p
    obtain ⟨-, solid, -, rest⟩ := at_p.cons
    rw [List.mem_cons, not_or] at absent
    rw [strchrFrom, bind_of_ok at_p.head, if_neg (Ne.symm absent.1), if_neg solid, ih rest absent.2 (by simpa using enough),
      List.length_cons]
    push_cast
    rw [show p + 1 + (left.length : Int) = p + (left.length + 1) by omega]

theorem strchr_none (at_p : StandsC b mem p str) (absent : ch ∉ str) (printable : ch ≠ '\x00') :
    strchr b p ch mem = .ok none mem := strchrFrom_none at_p absent printable at_p.fueled

theorem strchr_some (at_p : StandsC b mem p (left ++ ch :: right)) (absent : ch ∉ left) :
    strchr b p ch mem = .ok (some (p + left.length)) mem := by
  have fueled := at_p.fueled
  rw [List.length_append] at fueled
  exact strchrFrom_some at_p absent (by omega)

theorem strrchrFrom_none {last : Option Int} (at_p : StandsC b mem p str) (absent : ch ∉ str) (printable : ch ≠ '\x00')
    (enough : str.length < fuel) : strrchrFrom b ch fuel last p mem = .ok last mem := by
  induction str generalizing p fuel with
  | nil =>
    obtain ⟨fuel, rfl⟩ := Nat.exists_eq_add_of_lt enough
    rw [strrchrFrom, bind_of_ok at_p.nil]
    simp only [if_neg (Ne.symm printable), if_true]
    rfl
  | cons c str ih =>
    obtain ⟨fuel, rfl⟩ : ∃ n, fuel = n + 1 := ⟨fuel - 1, by omega⟩
    obtain ⟨-, solid, -, rest⟩ := at_p.cons
    rw [List.mem_cons, not_or] at absent
    rw [strrchrFrom, bind_of_ok at_p.head]
    simp only [if_neg (Ne.symm absent.1), if_neg solid]
    exact ih rest absent.2 (by simpa using enough)

theorem strrchrFrom_some {last : Option Int} (at_p : StandsC b mem p (left ++ ch :: right)) (absent : ch ∉ right)
    (printable : ch ≠ '\x00') (enough : (left ++ ch :: right).length < fuel) :
    strrchrFrom b ch fuel last p mem = .ok (some (p + left.length)) mem := by
  induction left generalizing p fuel last with
  | nil =>
    obtain ⟨fuel, rfl⟩ : ∃ n, fuel = n + 1 := ⟨fuel - 1, by omega⟩
    obtain ⟨-, solid, -, rest⟩ := at_p.cons
    rw [strrchrFrom, bind_of_ok at_p.head, List.length_nil, Int.natCast_zero, Int.add_zero]
    simp only [if_true, if_neg solid]
    exact strrchrFrom_none rest absent printable (by simpa using enough)
  | cons c left ih =>
    obtain ⟨fuel, rfl⟩ : ∃ n, fuel = n + 1 := ⟨fuel - 1, by omega⟩
    rw [List.cons_append] at at_p
    obtain ⟨-, solid, -, rest⟩ := at_p.cons
    rw [strrchrFrom, bind_of_ok at_p.head]
    simp only [if_neg solid]
    rw [ih rest (by simpa using enough), List.length_cons]
    push_cast
    rw [show p + 1 + (left.length : Int) = p + (left.length + 1) by omega]

theorem strrchr_none (at_p : StandsC b mem p str) (absent : ch ∉ str) (printable : ch ≠ '\x00') :
    strrchr b p ch mem = .ok none mem := strrchrFrom_none at_p absent printable at_p.fueled

theorem strrchr_some (at_p : StandsC b mem p (left ++ ch :: right)) (absent : ch ∉ right) (printable : ch ≠ '\x00') :
    strrchr b p ch mem = .ok (some (p + left.length)) mem := strrchrFrom_some at_p absent printable at_p.fueled

/-- Where its reads go through, a comparison tells whether `str` stands at `p`. -/
theorem strcmpEq_run (readable : b.lenient = true ∨ 0 ≤ p ∧ p + str.length ≤ b.size) :
    ∃ same, strcmpEq b p str mem = .ok same mem ∧ (same = true ↔ Stands mem p str) := by
  induction str generalizing p with
  | nil => exact ⟨true, rfl, by simp [Stands]⟩
  | cons c str ih =>
    rw [List.length_cons] at readable
    push_cast at readable
    have first : read b p mem = .ok (mem p) mem := if_pos (readable.symm.imp (fun inside => ⟨inside.1, by omega⟩) id)
    rw [strcmpEq, bind_of_ok first]
    by_cases here : mem p = c
    · obtain ⟨same, ran, decides⟩ := @ih (p + 1) (readable.imp id fun inside => ⟨by omega, by omega⟩)
      refine ⟨same, ?_, ?_⟩
      · rw [if_neg (not_not.mpr here), ran]
      · rw [decides, Stands, and_iff_right here]
    · refine ⟨false, if_pos here ▸ rfl, ?_⟩
      simp [Stands, here]

/-- A strict run ends at a first read outside the block. -/
theorem strcmpEq_outside (strict : b.lenient = false) (outside : ¬ b.Contains p) :
    strcmpEq b p (c :: str) mem = .error (.outOfBounds p) mem := by
  have first : read b p mem = .error (.outOfBounds p) mem := if_neg (by simp [outside, strict])
  rw [strcmpEq, bind_of_error first]

end Strings

end CMemory
