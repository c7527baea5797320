import CxxpyTree.Lib.CMemory
import Mathlib.Data.List.TakeWhile

/-! `base_ext_func_t::load` of sys.cpp, which composes the path of a module and the name of a function in
one buffer. Pointers are offsets from the start of the buffer. -/

namespace CxxpyTree.Sys
open Machine CMemory

/-- A C string without its NUL. -/
structure CText where
  chars : List Char
  clean : '\x00' ∉ chars

/-- How `load` ends: without a call of `dlopen`, after one that fails, or with a call of `dlsym`. -/
inductive LoadResult where
  /-- `invalid ext func name '%s'`, of the name that was given. -/
  | invalidName
  /-- `failed loading module '%s': %s`, of the module and of `dlerror`. -/
  | notLoaded (file mod : List Char)
  | called (file func : List Char)
  deriving DecidableEq, Repr

section Load
variable (b : Block)

/-- The directory and the prefix in front of `name`, unless it has a directory of its own; returns `mod`. -/
def composeDir (homeDir : CText) (pfx : Option CText) (name : CText) : Access Int := do
  let sz0 : Nat := 1 + homeDir.chars.length
  if '/' ∈ name.chars then return 0
  else
    strcpy b 0 homeDir.chars
    strcat b 0 ['/']
    let mod : Int := sz0
    match pfx with
    | none => return mod
    | some pfx =>
      let sz1 : Nat := 1 + pfx.chars.length
      strcpy b mod pfx.chars
      strcat b mod ['-']
      return mod + sz1

/-- Cuts the name at `::`; returns `ptr` and `func`, or nothing for an invalid name. -/
def cutName (mod : Int) (sz : Nat) : Access (Option (Int × Option Int)) := do
  match ← strchr b mod ':' with
  | none => return some (mod + sz, none)
  | some ptr =>
    if ptr + 2 ≥ mod + sz then return none
    else if (← read b (ptr + 1)) ≠ ':' then return none
    else
      write b ptr '\x00'
      memmove b (ptr + 4) ptr (sz - (ptr - mod).toNat + 1)
      return some (ptr, some (ptr + 6))

def ext : List Char := ['.', 's', 'o']

/-- Puts the extension behind the module unless it is there; returns `ptr`, where it starts. -/
def putExt (ptr : Int) (sz : Nat) : Access Int := do
  if sz < 3 then
    strcpy b ptr ext
    return ptr
  else if !(← strcmpEq b (ptr - 3) (ext ++ ['\x00'])) then
    strcpy b ptr ext
    return ptr
  else return ptr - 3

/-- The function that is named like its module. -/
def moduleFunc (mod ptr : Int) : Access Int := do
  match ← strrchr b mod '/' with
  | some func =>
    write b func '\x00'
    write b ptr '\x00'
    return func + 1
  | none =>
    write b ptr '\x00'
    return mod

end Load

/-- The size of the buffer. -/
def bufSize (homeDir : CText) (pfx : Option CText) (name : CText) : Nat :=
  let sz0 := 1 + homeDir.chars.length
  let sz1 := match pfx with
    | none => 0
    | some pfx => 1 + pfx.chars.length
  sz0 + sz1 + name.chars.length + 5

/-- `dlopen file` tells whether the module is there. -/
def load (lenient : Bool) (dlopen : List Char → Bool) (homeDir : CText) (pfx : Option CText) (name : CText) :
    Access LoadResult := do
  let b : Block := ⟨bufSize homeDir pfx name, lenient⟩
  let sz := name.chars.length
  let mod ← composeDir b homeDir pfx name
  strcpy b mod name.chars
  match ← cutName b mod sz with
  | none => return .invalidName
  | some (ptr, func) =>
    let ptr ← putExt b ptr sz
    let file ← scan b b.size 0
    if !dlopen file then return .notLoaded file (← scan b b.size mod)
    else
      let func ← func.elim (moduleFunc b mod ptr) pure
      return .called file (← scan b b.size func)

/-- What `composeDir` puts in front of the name. -/
def dirPart (homeDir : CText) (pfx : Option CText) (name : List Char) : List Char :=
  if '/' ∈ name then []
  else homeDir.chars ++ '/' :: match pfx with
    | none => []
    | some pfx => pfx.chars ++ ['-']

/-- A file name without its extension. -/
def dropExt (file : List Char) : List Char := if ext <:+ file then file.take (file.length - 3) else file

/-- What is behind the last `/`. -/
def baseName (file : List Char) : List Char := (file.reverse.takeWhile (· ≠ '/')).reverse

section Compose
variable {b : Block} {mem : Memory} {homeDir name : CText} {pfx : Option CText}

theorem dirPart_fits : (dirPart homeDir pfx name.chars).length + name.chars.length + 5 ≤ bufSize homeDir pfx name := by
  unfold dirPart bufSize
  split
  · simp only [List.length_nil]
    omega
  · cases pfx <;> simp only [List.length_append, List.length_cons, List.length_nil] <;> omega

theorem composeDir_run (fits : (dirPart homeDir pfx name.chars).length < b.size) :
    ∃ mem', composeDir b homeDir pfx name mem = .ok ((dirPart homeDir pfx name.chars).length : Int) mem' ∧
      Stands mem' 0 (dirPart homeDir pfx name.chars) := by
  unfold composeDir dirPart at *
  by_cases slash : '/' ∈ name.chars
  · simp only [if_pos slash]
    exact ⟨mem, rfl, trivial⟩
  simp only [if_neg slash, List.length_append, List.length_cons] at *
  obtain ⟨mem₁, mem₂, home, slashed, stands, -⟩ := @strcpy_strcat_run b 0 homeDir.chars mem ['/'] homeDir.clean
    (Int.le_refl 0) (by simp only [List.length_singleton]; omega)
  rw [bind_of_ok home, bind_of_ok slashed]
  cases pfx with
  | none =>
    refine ⟨mem₂, ?_, (stands_append.mp stands).1⟩
    rw [Nat.add_comm]
    rfl
  | some pfx =>
    simp only [List.length_append, List.length_singleton] at fits
    obtain ⟨mem₃, mem₄, copied, dashed, stands', frame⟩ := @strcpy_strcat_run b (1 + homeDir.chars.length : Nat) pfx.chars
      mem₂ ['-'] pfx.clean (by omega) (by simp only [List.length_singleton]; omega)
    simp only []
    rw [bind_of_ok copied, bind_of_ok dashed]
    refine ⟨mem₄, ?_, ?_⟩
    · simp only [List.length_append, List.length_singleton]
      exact congrArg (EStateM.Result.ok · mem₄) (by push_cast; omega)
    · rw [List.append_cons, stands_append, List.length_append, List.length_singleton, Int.zero_add, Nat.add_comm]
      refine ⟨?_, (stands_append.mp stands').1⟩
      refine (stands_append.mp stands).1.frame fun q _ high => frame q (.inl ?_)
      rw [List.length_append, List.length_singleton] at high
      omega

end Compose

section Cut
variable {b : Block} {mem : Memory} {dir name left func : List Char}

/-- `name` stands behind `dir`, with room for the extension and the shift. -/
structure Composed (b : Block) (mem : Memory) (dir name : List Char) : Prop where
  stands : Stands mem 0 (dir ++ name ++ ['\x00'])
  clean : '\x00' ∉ dir ++ name
  room : dir.length + name.length + 5 ≤ b.size

theorem Composed.fileAt (composed : Composed b mem dir name) : StandsC b mem 0 (dir ++ name) := by
  have room := composed.room
  refine ⟨composed.stands, composed.clean, Int.le_refl 0, ?_⟩
  rw [List.length_append]
  omega

theorem Composed.nameAt (composed : Composed b mem dir name) : StandsC b mem dir.length name := by
  have behind := composed.fileAt.behind
  rwa [Int.zero_add] at behind

theorem cutName_plain (composed : Composed b mem dir name) (plain : ':' ∉ name) :
    cutName b dir.length name.length mem = .ok (some (dir.length + name.length, none)) mem := by
  rw [cutName, bind_of_ok (strchr_none composed.nameAt plain (by decide))]
  rfl

theorem cutName_bad {rest : List Char} (composed : Composed b mem dir (left ++ ':' :: rest)) (first : ':' ∉ left)
    (bad : ¬ ∃ func, func ≠ [] ∧ rest = ':' :: func) :
    cutName b dir.length (left ++ ':' :: rest).length mem = .ok none mem := by
  have rest_at : StandsC b mem (dir.length + left.length + 1) rest := (composed.nameAt.behind).cons.2.2.2
  rw [cutName, bind_of_ok (strchr_some composed.nameAt first)]
  simp only [List.length_append, List.length_cons]
  match rest with
  | [] =>
    rw [if_pos (by simp only [List.length_nil]; omega)]
    rfl
  | [c] =>
    rw [if_pos (by simp only [List.length_singleton]; omega)]
    rfl
  | c :: c' :: func =>
    rw [if_neg (by simp only [List.length_cons]; omega), bind_of_ok rest_at.head, if_pos]
    · rfl
    · rintro rfl
      exact bad ⟨c' :: func, List.cons_ne_nil _ _, rfl⟩

/-- A name of two parts is cut in place, and its second part is moved away from the first. -/
theorem cutName_cut (composed : Composed b mem dir (left ++ ':' :: ':' :: func)) (first : ':' ∉ left)
    (some_func : func ≠ []) : ∃ mem', cutName b dir.length (left ++ ':' :: ':' :: func).length mem =
        .ok (some (dir.length + left.length, some (dir.length + left.length + 6))) mem' ∧
      Stands mem' 0 (dir ++ left ++ ['\x00']) ∧ StandsC b mem' (dir.length + left.length + 6) func := by
  have room := composed.room
  have clean := composed.clean
  have tail_at := composed.nameAt.behind
  have func_at : StandsC b mem (dir.length + left.length + 1 + 1) func := tail_at.cons.2.2.2.cons.2.2.2
  have long : 0 < func.length := List.length_pos_iff.mpr some_func
  simp only [List.length_append, List.length_cons] at room ⊢
  rw [cutName, bind_of_ok (strchr_some composed.nameAt first)]
  -- the NUL on the first colon
  obtain ⟨mem₁, cut, nul, kept⟩ := @write_run b (dir.length + left.length) mem '\x00' (by omega) (by omega)
  -- what is moved: the NUL, the second colon, the function and its NUL
  have moved_at : Stands mem₁ (dir.length + left.length) ('\x00' :: ':' :: (func ++ ['\x00'])) :=
    ⟨nul, (tail_at.cons.2.2.2.stands.frame fun q low _ => kept q (by omega))⟩
  have size : left.length + (func.length + 1 + 1) - ((dir.length : Int) + left.length - dir.length).toNat + 1 =
      ('\x00' :: ':' :: (func ++ ['\x00'])).length := by
    simp only [List.length_cons, List.length_append, List.length_nil]
    omega
  obtain ⟨mem', moved⟩ := @memmove_run b mem₁ _ _ (dir.length + left.length + 4) moved_at (by omega)
    (by rw [← size]; omega) (by omega) (by rw [← size]; omega)
  refine ⟨mem', ?_, ?_, ?_⟩
  · simp only []
    rw [if_neg (by omega), bind_of_ok tail_at.cons.2.2.2.head, if_neg (by simp), bind_of_ok cut, size, bind_of_ok moved.ran]
    rfl
  · have front : Stands mem₁ 0 (dir ++ left ++ ['\x00']) := by
      rw [stands_append, List.length_append]
      have whole := composed.stands
      rw [← List.append_assoc, List.append_assoc, stands_append] at whole
      refine ⟨whole.1.frame fun q _ high => kept q ?_, ?_, trivial⟩
      · rw [List.length_append] at high
        omega
      · rw [Int.zero_add]
        exact nul
    refine front.frame fun q _ high => moved.frame q (.inl ?_)
    simp only [List.length_append, List.length_singleton] at high
    omega
  · refine ⟨?_, func_at.clean, by omega, by omega⟩
    have shifted := moved.stands.2.2
    rwa [show (dir.length : Int) + left.length + 4 + 1 + 1 = dir.length + left.length + 6 by omega] at shifted

end Cut

section Extension
variable {b : Block} {mem : Memory} {dir stem file : List Char} {sz : Nat}

theorem length_ext : ext.length = 3 := rfl

/-- The index where the extension of a file starts. -/
theorem ext_start (stem : List Char) : ((stem ++ ext).length - 3 : Int) = stem.length := by
  rw [List.length_append, length_ext]
  omega

theorem dropExt_of_suffix (stem : List Char) : dropExt (stem ++ ext) = stem := by
  have length : (stem ++ ext).length - 3 = stem.length := by
    rw [List.length_append, length_ext, Nat.add_sub_cancel]
  rw [dropExt, if_pos (List.suffix_append stem ext), length, List.take_left]

theorem dropExt_of_not_suffix (other : ¬ ext <:+ file) : dropExt file = file := if_neg other

/-- The comparison looks for the extension, unless the file is shorter than that and ends like it. -/
theorem stands_ext_iff (at_0 : StandsC b mem 0 file) (solid : ¬ file <:+ ['s', 'o']) :
    Stands mem (file.length - 3 : Int) (ext ++ ['\x00']) ↔ ext <:+ file := by
  have stands := at_0.stands
  constructor
  · intro found
    by_cases long : 3 ≤ file.length
    · obtain ⟨front, last, rfl, three⟩ : ∃ front last, file = front ++ last ∧ last.length = 3 :=
        ⟨_, _, (List.take_append_drop (file.length - 3) file).symm, by rw [List.length_drop]; omega⟩
      rw [List.append_assoc, stands_append] at stands
      rw [List.length_append, three, show ((front.length + 3 : Nat) : Int) - 3 = 0 + front.length by omega] at found
      have same := stands.2.unique found (by rw [List.length_append, three]; rfl)
      rw [List.append_cancel_right same]
      exact List.suffix_append front ext
    · match file with
      | [] => exact absurd List.nil_suffix solid
      | [x] =>
        have here : x = 'o' := stands.1.symm.trans found.2.2.1
        exact absurd ⟨['s'], by rw [here]; rfl⟩ solid
      | [x, y] =>
        have first : x = 's' := stands.1.symm.trans found.2.1
        have second : y = 'o' := stands.2.1.symm.trans found.2.2.1
        exact absurd ⟨[], by rw [first, second]; rfl⟩ solid
      | _ :: _ :: _ :: _ =>
        simp only [List.length_cons] at long
        omega
  · rintro ⟨stem, rfl⟩
    rw [List.append_assoc, stands_append, Int.zero_add] at stands
    rw [ext_start]
    exact stands.2

/-- The module ends in its extension, and `ptr` is where that starts. -/
theorem putExt_run (at_0 : StandsC b mem 0 file) (room : file.length + 4 ≤ b.size)
    (readable : 3 ≤ sz → b.lenient = true ∨ 3 ≤ file.length) (solid : 3 ≤ sz → ¬ file <:+ ['s', 'o']) :
    ∃ stem mem', stem = (if 3 ≤ sz then dropExt file else file) ∧ putExt b file.length sz mem = .ok (stem.length : Int) mem' ∧
      StandsC b mem' 0 (stem ++ ext) ∧ ∀ q : Int, file.length + 4 ≤ q → mem' q = mem q := by
  -- a module without its extension gets one
  have added : ∃ mem', strcpy b file.length ext mem = .ok () mem' ∧ StandsC b mem' 0 (file ++ ext) ∧
      ∀ q : Int, file.length + 4 ≤ q → mem' q = mem q := by
    obtain ⟨mem', put⟩ := @strcpy_run b mem file.length ext (by omega) (by rw [length_ext]; omega)
    refine ⟨mem', put.ran, ⟨?_, ?_, Int.le_refl 0, ?_⟩, fun q high => put.frame q (.inr ?_)⟩
    · rw [List.append_assoc, stands_append, Int.zero_add]
      refine ⟨(stands_append.mp at_0.stands).1.frame fun q _ high => put.frame q (.inl (by omega)), put.stands⟩
    · rw [List.mem_append, not_or]
      exact ⟨at_0.clean, by decide⟩
    · rw [List.length_append, length_ext]
      omega
    · rw [List.length_append, length_ext, List.length_singleton]
      omega
  obtain ⟨mem', put, ends, frame⟩ := added
  unfold putExt
  by_cases short : sz < 3
  · rw [if_pos short, if_neg (by omega)]
    exact ⟨file, mem', rfl, by rw [bind_of_ok put]; rfl, ends, frame⟩
  · rw [if_neg short, if_pos (by omega)]
    obtain ⟨same, compared, decides⟩ := @strcmpEq_run b mem (file.length - 3) (ext ++ ['\x00'])
      ((readable (by omega)).imp id fun long => ⟨by omega, by simp [ext]; omega⟩)
    rw [stands_ext_iff at_0 (solid (by omega))] at decides
    rw [bind_of_ok compared]
    by_cases suffix : ext <:+ file
    · obtain ⟨stem, rfl⟩ := suffix
      rw [decides.mpr (List.suffix_append stem ext), dropExt_of_suffix]
      refine ⟨stem, mem, rfl, ?_, at_0, fun _ _ => rfl⟩
      rw [ext_start]
      rfl
    · rw [Bool.eq_false_iff.mpr (fun found => suffix (decides.mp found)), dropExt_of_not_suffix suffix]
      exact ⟨file, mem', rfl, by simp only [Bool.not_false, if_true]; rw [bind_of_ok put]; rfl, ends, frame⟩

theorem baseName_of_slash {left right : List Char} (last : '/' ∉ right) : baseName (left ++ '/' :: right) = right := by
  have all : ∀ c ∈ right.reverse, decide (c ≠ '/') = true := by
    intro c member
    simpa using fun same : c = '/' => last (same ▸ List.mem_reverse.mp member)
  rw [baseName, List.reverse_append, List.reverse_cons, List.append_assoc, List.takeWhile_append_of_pos all]
  simp

theorem baseName_of_not_mem (absent : '/' ∉ file) : baseName file = file := by
  have all : ∀ c ∈ file.reverse, decide (c ≠ '/') = true := by
    intro c member
    simpa using fun same : c = '/' => absent (same ▸ List.mem_reverse.mp member)
  rw [baseName, List.takeWhile_eq_self_iff.mpr all, List.reverse_reverse]

/-- A text is its base name, or that behind a `/`. -/
theorem slash_cases (file : List Char) :
    '/' ∉ file ∨ ∃ left right, file = left ++ '/' :: right ∧ '/' ∉ right := by
  by_cases member : '/' ∈ file
  · obtain ⟨right, left, split, last⟩ := List.eq_append_cons_of_mem (List.mem_reverse.mpr member)
    refine .inr ⟨left.reverse, right.reverse, ?_, fun listed => last (List.mem_reverse.mp listed)⟩
    rw [← List.reverse_reverse file, split]
    simp
  · exact .inl member

end Extension

section Func
variable {b : Block} {mem : Memory} {dir stem left right : List Char}

/-- The function of a whole module is named like it: its path and its extension are cut off in place. -/
theorem moduleFunc_run (at_0 : StandsC b mem 0 (dir ++ (stem ++ ext))) :
    ∃ func mem', moduleFunc b dir.length (dir.length + stem.length) mem = .ok func mem' ∧
      StandsC b mem' func (baseName stem) := by
  have mod_at : StandsC b mem dir.length (stem ++ ext) := by
    have behind := at_0.behind
    rwa [Int.zero_add] at behind
  have high := mod_at.high
  rw [List.length_append, length_ext] at high
  have stem_stands := (stands_append.mp (stands_append.mp mod_at.stands).1).1
  have clean : '\x00' ∉ stem := fun member => mod_at.clean (List.mem_append_left _ member)
  rcases slash_cases stem with absent | ⟨left, right, rfl, last⟩
  · have found : strrchr b dir.length '/' mem = .ok none mem := by
      refine strrchr_none mod_at ?_ (by decide)
      rw [List.mem_append, not_or]
      exact ⟨absent, by decide⟩
    obtain ⟨mem', ended, nul, kept⟩ := @write_run b (dir.length + stem.length) mem '\x00' (by omega) (by omega)
    refine ⟨dir.length, mem', ?_, ?_⟩
    · rw [moduleFunc, bind_of_ok found]
      simp only []
      rw [bind_of_ok ended]
      rfl
    · rw [baseName_of_not_mem absent]
      refine ⟨?_, clean, by omega, by omega⟩
      rw [stands_append]
      exact ⟨stem_stands.frame fun q _ high => kept q (by omega), nul, trivial⟩
  · have found : strrchr b dir.length '/' mem = .ok (some (dir.length + left.length)) mem := by
      rw [List.append_assoc, List.cons_append] at mod_at
      refine strrchr_some mod_at ?_ (by decide)
      rw [List.mem_append, not_or]
      exact ⟨last, by decide⟩
    simp only [List.length_append, List.length_cons] at high ⊢
    obtain ⟨mem₁, cut, -, kept₁⟩ := @write_run b (dir.length + left.length) mem '\x00' (by omega) (by omega)
    obtain ⟨mem₂, ended, nul, kept₂⟩ :=
      @write_run b (dir.length + (left.length + (right.length + 1) : Nat)) mem₁ '\x00' (by omega) (by omega)
    refine ⟨dir.length + left.length + 1, mem₂, ?_, ?_⟩
    · rw [moduleFunc, bind_of_ok found]
      simp only []
      rw [bind_of_ok cut, bind_of_ok ended]
      rfl
    · rw [baseName_of_slash last]
      refine ⟨?_, fun member => clean (List.mem_append_right _ (List.mem_cons_of_mem _ member)), by omega, by omega⟩
      have behind := (stands_append.mp stem_stands).2.2
      rw [stands_append, show (dir.length : Int) + left.length + 1 + right.length =
        dir.length + (left.length + (right.length + 1) : Nat) by omega]
      exact ⟨behind.frame fun q low high => by rw [kept₂ q (by omega), kept₁ q (by omega)], nul, trivial⟩

end Func

section Load
variable {mem : Memory} {lenient : Bool} {dlopen : List Char → Bool} {homeDir name : CText} {pfx : Option CText}
  {left func : List Char}

/-- What `load` ends in, once the path and the function are composed. -/
def outcome (dlopen : List Char → Bool) (dir mod func : List Char) : LoadResult :=
  if dlopen (dir ++ (mod ++ ext)) then .called (dir ++ (mod ++ ext)) func else .notLoaded (dir ++ (mod ++ ext)) (mod ++ ext)

theorem dirPart_clean : '\x00' ∉ dirPart homeDir pfx name.chars ++ name.chars := by
  rw [List.mem_append, not_or]
  refine ⟨?_, name.clean⟩
  unfold dirPart
  split
  · exact List.not_mem_nil
  · cases pfx with
    | none => simpa using homeDir.clean
    | some pfx => simpa using ⟨homeDir.clean, pfx.clean⟩

/-- The directory and the name stand in the buffer, one behind the other. -/
theorem composed (lenient : Bool) (mem : Memory) : ∃ mem₁ mem₂,
    composeDir ⟨bufSize homeDir pfx name, lenient⟩ homeDir pfx name mem =
      .ok ((dirPart homeDir pfx name.chars).length : Int) mem₁ ∧
    strcpy ⟨bufSize homeDir pfx name, lenient⟩ (dirPart homeDir pfx name.chars).length name.chars mem₁ = .ok () mem₂ ∧
    Composed ⟨bufSize homeDir pfx name, lenient⟩ mem₂ (dirPart homeDir pfx name.chars) name.chars := by
  have fits := @dirPart_fits homeDir name pfx
  obtain ⟨mem₁, dir, stands⟩ := @composeDir_run ⟨bufSize homeDir pfx name, lenient⟩ mem homeDir name pfx (by simp only; omega)
  obtain ⟨mem₂, copied⟩ := @strcpy_run ⟨bufSize homeDir pfx name, lenient⟩ mem₁ (dirPart homeDir pfx name.chars).length name.chars
    (by omega) (by simp only; omega)
  refine ⟨mem₁, mem₂, dir, copied.ran, ?_, dirPart_clean, fits⟩
  rw [List.append_assoc, stands_append, Int.zero_add]
  exact ⟨stands.frame fun q _ high => copied.frame q (.inl (by omega)), copied.stands⟩

/-- A directory is empty or ends in a character that is not one of the extension. -/
def Separated (dir : List Char) : Prop := dir = [] ∨ ∃ front c, dir = front ++ [c] ∧ c ∉ ext

theorem dirPart_separated : Separated (dirPart homeDir pfx name.chars) := by
  unfold dirPart
  split
  · exact .inl rfl
  · cases pfx with
    | none => exact .inr ⟨homeDir.chars, '/', rfl, by decide⟩
    | some pfx => exact .inr ⟨homeDir.chars ++ '/' :: pfx.chars, '-', by simp, by decide⟩

theorem ext_suffix_iff {dir mod : List Char} (separated : Separated dir) : ext <:+ dir ++ mod ↔ ext <:+ mod := by
  refine ⟨fun suffix => ?_, fun suffix => suffix.trans (List.suffix_append dir mod)⟩
  rcases separated with rfl | ⟨front, c, rfl, other⟩
  · exact suffix
  · rcases List.suffix_or_suffix_of_suffix suffix (List.suffix_append (front ++ [c]) mod) with inside | ⟨head, split⟩
    · exact inside
    · -- the part of the extension that `mod` leaves out would end where the directory does
      obtain ⟨before, whole⟩ := suffix
      rw [← split, ← List.append_assoc] at whole
      have ends : before ++ head = front ++ [c] := List.append_cancel_right whole
      rcases List.eq_nil_or_concat head with rfl | ⟨head', d, rfl⟩
      · exact ⟨[], split.symm⟩
      · rw [List.concat_eq_append] at ends split
        rw [← List.append_assoc] at ends
        obtain rfl : d = c := by simpa using (List.append_inj' ends rfl).2
        exact absurd (split ▸ by simp) other

theorem dropExt_append {dir mod : List Char} (separated : Separated dir) : dropExt (dir ++ mod) = dir ++ dropExt mod := by
  by_cases suffix : ext <:+ mod
  · obtain ⟨stem, rfl⟩ := suffix
    rw [← List.append_assoc, dropExt_of_suffix, dropExt_of_suffix]
  · rw [dropExt_of_not_suffix suffix, dropExt_of_not_suffix (fun other => suffix ((ext_suffix_iff separated).mp other))]

theorem dropExt_short {mod : List Char} (short : mod.length < 3) : dropExt mod = mod := by
  refine dropExt_of_not_suffix fun suffix => ?_
  have long := suffix.length_le
  rw [length_ext] at long
  omega

theorem load_bad {rest : List Char} (lenient : Bool) (mem : Memory) (split : name.chars = left ++ ':' :: rest)
    (first : ':' ∉ left) (bad : ¬ ∃ func, func ≠ [] ∧ rest = ':' :: func) :
    ∃ mem', load lenient dlopen homeDir pfx name mem = .ok .invalidName mem' := by
  obtain ⟨mem₁, mem₂, dir, copied, composed⟩ := @composed homeDir name pfx lenient mem
  rw [split] at composed copied
  have cut := cutName_bad composed first bad
  refine ⟨mem₂, ?_⟩
  rw [load]
  simp only []
  rw [bind_of_ok dir, split, bind_of_ok copied, bind_of_ok cut]
  rfl

theorem load_plain (lenient : Bool) (mem : Memory) (plain : ':' ∉ name.chars) :
    ∃ mem', load lenient dlopen homeDir pfx name mem = .ok (outcome dlopen (dirPart homeDir pfx name.chars)
      (dropExt name.chars) (baseName (dropExt name.chars))) mem' := by
  obtain ⟨mem₁, mem₂, dir, copied, composed⟩ := @composed homeDir name pfx lenient mem
  have room := composed.room
  have long (enough : 3 ≤ name.chars.length) : 3 ≤ (dirPart homeDir pfx name.chars ++ name.chars).length := by
    rw [List.length_append]
    omega
  obtain ⟨stem, mem₃, rfl, put, file_at, -⟩ := @putExt_run _ mem₂ _ name.chars.length composed.fileAt
    (by rw [List.length_append]; omega) (fun enough => .inr (long enough))
    (fun enough solid => absurd solid.length_le (by have := long enough; simp only [List.length_cons, List.length_nil]; omega))
  have stem : (if 3 ≤ name.chars.length then dropExt (dirPart homeDir pfx name.chars ++ name.chars)
      else dirPart homeDir pfx name.chars ++ name.chars) = dirPart homeDir pfx name.chars ++ dropExt name.chars := by
    split
    · exact dropExt_append dirPart_separated
    · rw [dropExt_short (by omega)]
  rw [stem, List.append_assoc] at file_at
  rw [stem, List.length_append, List.length_append] at put
  obtain ⟨func, mem₄, named, func_at⟩ := moduleFunc_run file_at
  have file := scan_run file_at
  have mod_at := file_at.behind
  rw [Int.zero_add] at mod_at
  rw [load]
  simp only []
  rw [bind_of_ok dir, bind_of_ok copied, bind_of_ok (cutName_plain composed plain)]
  push_cast at put
  simp only []
  rw [bind_of_ok put, bind_of_ok file]
  unfold outcome
  cases opened : dlopen (dirPart homeDir pfx name.chars ++ (dropExt name.chars ++ ext)) with
  | false =>
    simp only [Bool.not_false, if_true, Bool.false_eq_true, if_false]
    rw [bind_of_ok (scan_run mod_at)]
    exact ⟨_, rfl⟩
  | true =>
    simp only [Bool.not_true, Bool.false_eq_true, if_false, if_true, Option.elim]
    rw [bind_of_ok named, bind_of_ok (scan_run func_at)]
    exact ⟨_, rfl⟩

theorem load_cut (mem : Memory) (split : name.chars = left ++ ':' :: ':' :: func) (first : ':' ∉ left) (some_func : func ≠ [])
    (readable : lenient = true ∨ 3 ≤ (dirPart homeDir pfx name.chars ++ left).length)
    (solid : ¬ dirPart homeDir pfx name.chars ++ left <:+ ['s', 'o']) :
    ∃ mem', load lenient dlopen homeDir pfx name mem =
      .ok (outcome dlopen (dirPart homeDir pfx name.chars) (dropExt left) func) mem' := by
  obtain ⟨mem₁, mem₂, dir, copied, composed⟩ := @composed homeDir name pfx lenient mem
  have room := composed.room
  have clean := composed.clean
  have long : 0 < func.length := List.length_pos_iff.mpr some_func
  have separated := @dirPart_separated homeDir name pfx
  generalize dirPart homeDir pfx name.chars = d at *
  rw [split] at composed copied room clean
  obtain ⟨mem₃, cut, stands, func_at⟩ := cutName_cut composed first some_func
  simp only [List.length_append, List.length_cons] at room
  have file_at : StandsC ⟨bufSize homeDir pfx name, lenient⟩ mem₃ 0 (d ++ left) := by
    refine ⟨stands, fun member => clean ?_, Int.le_refl 0, by simp only [List.length_append]; omega⟩
    rw [← List.append_assoc]
    exact List.mem_append_left _ member
  obtain ⟨stem, mem₄, rfl, put, at_0, frame⟩ := @putExt_run _ mem₃ _ (left ++ ':' :: ':' :: func).length file_at
    (by simp only [List.length_append]; omega) (fun _ => readable) (fun _ => solid)
  rw [if_pos (by simp only [List.length_append, List.length_cons]; omega), dropExt_append separated] at put at_0
  rw [List.append_assoc] at at_0
  have mod_at := at_0.behind
  rw [Int.zero_add] at mod_at
  have func_at' : StandsC ⟨bufSize homeDir pfx name, lenient⟩ mem₄ (d.length + left.length + 6) func := by
    refine ⟨func_at.stands.frame fun q low _ => frame q ?_, func_at.clean, func_at.low, func_at.high⟩
    rw [List.length_append]
    omega
  rw [load]
  simp only []
  rw [bind_of_ok dir, split, bind_of_ok copied, bind_of_ok cut]
  simp only [List.length_append] at put
  push_cast at put
  simp only []
  rw [List.length_append, bind_of_ok put, bind_of_ok (scan_run at_0)]
  unfold outcome
  cases opened : dlopen (d ++ (dropExt left ++ ext)) with
  | false =>
    simp only [Bool.not_false, if_true, Bool.false_eq_true, if_false]
    rw [bind_of_ok (scan_run mod_at)]
    exact ⟨_, rfl⟩
  | true =>
    simp only [Bool.not_true, Bool.false_eq_true, if_false, if_true, Option.elim, pure_bind]
    rw [bind_of_ok (scan_run func_at')]
    exact ⟨_, rfl⟩

/-- A short module in front of `::` is compared from before the start of the buffer. -/
theorem load_outside (mem : Memory) (split : name.chars = left ++ ':' :: ':' :: func) (first : ':' ∉ left)
    (some_func : func ≠ []) (short : (dirPart homeDir pfx name.chars).length + left.length < 3) :
    ∃ mem', load false dlopen homeDir pfx name mem =
      .error (.outOfBounds ((dirPart homeDir pfx name.chars).length + left.length - 3 : Int)) mem' := by
  obtain ⟨mem₁, mem₂, dir, copied, composed⟩ := @composed homeDir name pfx false mem
  have long : 0 < func.length := List.length_pos_iff.mpr some_func
  generalize dirPart homeDir pfx name.chars = d at *
  rw [split] at composed copied
  obtain ⟨mem₃, cut, -, -⟩ := cutName_cut composed first some_func
  have put : putExt ⟨bufSize homeDir pfx name, false⟩ (d.length + left.length)
      (left ++ ':' :: ':' :: func).length mem₃ =
      .error (.outOfBounds (d.length + left.length - 3 : Int)) mem₃ := by
    rw [putExt, if_neg (by simp only [List.length_append, List.length_cons]; omega)]
    refine bind_of_error (strcmpEq_outside rfl fun inside => ?_)
    have low := inside.1
    omega
  rw [load]
  simp only []
  rw [bind_of_ok dir, split, bind_of_ok copied, bind_of_ok cut]
  exact ⟨mem₃, bind_of_error put⟩

end Load

section Resolution
variable {mem : Memory} {dlopen : List Char → Bool} {homeDir name : CText} {pfx : Option CText} {mod func : List Char}

/-- A file name with its extension. -/
def withExt (file : List Char) : List Char := if ext <:+ file then file else file ++ ext

theorem dropExt_ext (file : List Char) : dropExt file ++ ext = withExt file := by
  by_cases suffix : ext <:+ file
  · obtain ⟨stem, rfl⟩ := suffix
    rw [dropExt_of_suffix, withExt, if_pos (List.suffix_append stem ext)]
  · rw [dropExt_of_not_suffix suffix, withExt, if_neg suffix]

theorem baseName_dropExt (file : List Char) : baseName (dropExt file) = dropExt (baseName file) := by
  have slashless : '/' ∉ ext := by decide
  by_cases suffix : ext <:+ file
  · obtain ⟨stem, rfl⟩ := suffix
    rw [dropExt_of_suffix]
    rcases slash_cases stem with absent | ⟨left, right, rfl, last⟩
    · have absent' : '/' ∉ stem ++ ext := by
        rw [List.mem_append, not_or]
        exact ⟨absent, slashless⟩
      rw [baseName_of_not_mem absent, baseName_of_not_mem absent', dropExt_of_suffix]
    · have last' : '/' ∉ right ++ ext := by
        rw [List.mem_append, not_or]
        exact ⟨last, slashless⟩
      rw [baseName_of_slash last, List.append_assoc, List.cons_append, baseName_of_slash last', dropExt_of_suffix]
  · rw [dropExt_of_not_suffix suffix]
    rcases slash_cases file with absent | ⟨left, right, rfl, last⟩
    · rw [baseName_of_not_mem absent, dropExt_of_not_suffix suffix]
    · rw [baseName_of_slash last, dropExt_of_not_suffix]
      exact fun other => suffix (other.trans ⟨left ++ ['/'], by simp⟩)

/-- Opening the module `mod` in `dir` for the function `func`. -/
def resolved (dlopen : List Char → Bool) (dir mod func : List Char) : LoadResult :=
  if dlopen (dir ++ withExt mod) then .called (dir ++ withExt mod) func else .notLoaded (dir ++ withExt mod) (withExt mod)

theorem outcome_eq_resolved (dir mod func : List Char) : outcome dlopen dir (dropExt mod) func = resolved dlopen dir mod func := by
  rw [outcome, dropExt_ext, resolved]

theorem dirPart_cut (slashless : '/' ∉ func) :
    dirPart homeDir pfx (mod ++ ':' :: ':' :: func) = dirPart homeDir pfx mod := by
  have same : '/' ∈ mod ++ ':' :: ':' :: func ↔ '/' ∈ mod := by simp [slashless]
  unfold dirPart
  by_cases slash : '/' ∈ mod
  · rw [if_pos slash, if_pos (same.mpr slash)]
  · rw [if_neg slash, if_neg (fun member => slash (same.mp member))]

/-- A module has a `/`, of its own or from its directory. -/
theorem slash_mem_dirPart (mod : List Char) : '/' ∈ dirPart homeDir pfx mod ++ mod := by
  rw [List.mem_append]
  by_cases slash : '/' ∈ mod
  · exact .inr slash
  · exact .inl (by simp [dirPart, slash])

/-- `load` opens the module that a name stands for, in its directory and with its extension, and looks up the function
of the name, or the one that is called like the module. A name with a wrong `:` is refused before that. -/
theorem load_resolves (dlopen : List Char → Bool) (homeDir : CText) (pfx : Option CText) (name : CText) (mem : Memory) :
    (∀ mod, name.chars = mod → mod ≠ [] → ':' ∉ mod → ∃ mem', load true dlopen homeDir pfx name mem =
      .ok (resolved dlopen (dirPart homeDir pfx mod) mod (dropExt (baseName mod))) mem') ∧
    (∀ mod func, name.chars = mod ++ ':' :: ':' :: func → mod ≠ [] → ':' ∉ mod → func ≠ [] → '/' ∉ func → ':' ∉ func →
      ∃ mem', load true dlopen homeDir pfx name mem = .ok (resolved dlopen (dirPart homeDir pfx mod) mod func) mem') ∧
    ∀ mod rest, name.chars = mod ++ ':' :: rest → ':' ∉ mod → (¬ ∃ func, func ≠ [] ∧ rest = ':' :: func) →
      ∃ mem', load true dlopen homeDir pfx name mem = .ok .invalidName mem' := by
  refine ⟨?_, ?_, fun mod rest split first bad => load_bad true mem split first bad⟩
  · rintro _ rfl - plain
    have loaded := @load_plain dlopen homeDir name pfx true mem plain
    rwa [baseName_dropExt, outcome_eq_resolved] at loaded
  · intro mod func split _ first some_func slashless _
    have solid : ¬ dirPart homeDir pfx name.chars ++ mod <:+ ['s', 'o'] := by
      rw [split, dirPart_cut slashless]
      exact fun suffix => absurd (suffix.subset (slash_mem_dirPart mod)) (by decide)
    have loaded := @load_cut true dlopen homeDir name pfx mod func mem split first some_func (.inl rfl) solid
    rwa [split, dirPart_cut slashless, outcome_eq_resolved] at loaded

/-- `-F printer::foo` from the current directory. -/
theorem load_resolves_printer : ∃ mem', load true (fun _ => true) ⟨['.'], by decide⟩ none
    ⟨['p', 'r', 'i', 'n', 't', 'e', 'r', ':', ':', 'f', 'o', 'o'], by decide⟩ (fun _ => 'o') =
      .ok (.called ['.', '/', 'p', 'r', 'i', 'n', 't', 'e', 'r', '.', 's', 'o'] ['f', 'o', 'o']) mem' :=
  (load_resolves (fun _ => true) ⟨['.'], by decide⟩ none
    ⟨['p', 'r', 'i', 'n', 't', 'e', 'r', ':', ':', 'f', 'o', 'o'], by decide⟩ (fun _ => 'o')).2.1
      ['p', 'r', 'i', 'n', 't', 'e', 'r'] ['f', 'o', 'o'] rfl (by decide) (by decide) (by decide) (by decide) (by decide)

/-- Every access is inside the buffer unless the directory and the module in front of an accepted `::` are shorter than
the extension. -/
theorem load_inside_iff (dlopen : List Char → Bool) (homeDir : CText) (pfx : Option CText) (name : CText) (mem : Memory) :
    (∀ p mem', load false dlopen homeDir pfx name mem ≠ .error (.outOfBounds p) mem') ↔
      ∀ mod func, name.chars = mod ++ ':' :: ':' :: func → ':' ∉ mod → func ≠ [] →
        3 ≤ (dirPart homeDir pfx name.chars).length + mod.length := by
  constructor
  · intro inside mod func split first some_func
    by_contra short
    obtain ⟨mem', stopped⟩ := @load_outside dlopen homeDir name pfx mod func mem split first some_func (Nat.not_le.mp short)
    exact inside _ _ stopped
  · intro long p mem' stopped
    by_cases plain : ':' ∉ name.chars
    · obtain ⟨_, loaded⟩ := @load_plain dlopen homeDir name pfx false mem plain
      rw [loaded] at stopped
      cases stopped
    · obtain ⟨mod, rest, split, first⟩ := List.eq_append_cons_of_mem (not_not.mp plain)
      by_cases cut : ∃ func, func ≠ [] ∧ rest = ':' :: func
      · obtain ⟨func, some_func, rfl⟩ := cut
        have enough : 3 ≤ (dirPart homeDir pfx name.chars ++ mod).length := by
          rw [List.length_append]
          exact long mod func split first some_func
        obtain ⟨_, loaded⟩ := @load_cut false dlopen homeDir name pfx mod func mem split first some_func (.inr enough)
          (fun suffix => absurd suffix.length_le (by simp only [List.length_cons, List.length_nil]; omega))
        rw [loaded] at stopped
        cases stopped
      · obtain ⟨_, loaded⟩ := @load_bad dlopen homeDir name pfx mod rest false mem split first cut
        rw [loaded] at stopped
        cases stopped

/-- For `a/::f` the extension is looked for from one byte before the buffer. -/
theorem load_not_inside : ¬ ∀ (dlopen : List Char → Bool) (homeDir : CText) (pfx : Option CText) (name : CText)
    (mem : Memory) (p : Int) (mem' : Memory), load false dlopen homeDir pfx name mem ≠ .error (.outOfBounds p) mem' := by
  intro inside
  obtain ⟨mem', stopped⟩ := @load_outside (fun _ => true) ⟨['.'], by decide⟩ ⟨['a', '/', ':', ':', 'f'], by decide⟩ none
    ['a', '/'] ['f'] (fun _ => 'o') rfl (by decide) (by decide) (by decide)
  exact inside _ _ _ _ _ _ _ stopped

end Resolution

end CxxpyTree.Sys
