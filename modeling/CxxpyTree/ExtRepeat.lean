import CxxpyTree.ExtCall

/-! The calls for successive inputs: when they all split the arguments as the first one does. -/

namespace CxxpyTree

open Machine

/-- The same arguments, up to the order of the extension's own. -/
structure ExtSplit.Same (split other : ExtSplit) : Prop where
  own : split.own.Perm other.own
  extArgc : split.extArgc = other.extArgc
  extArgs : split.extArgs = other.extArgs
  homeDir : split.homeDir = other.homeDir

/-- Each of the calls that are made comes back and splits the arguments as the first one does. -/
def Repeatable (libc : CLibrary) (parent : ParentOptions) (args : List CStr) (calls : Nat) : Prop :=
  ∀ first rest, extCalls libc parent calls { args := args.map some } = .ok first :: rest →
    ∀ call ∈ rest, ∃ split, call = .ok split ∧ split.Same first

section Again
variable {libc : CLibrary} {parent : ParentOptions} {left dir : CStr} {own : List CStr}
  {behind : List (Option CStr)} {s : ExtState}

theorem CLibrary.Documented.rescanned (documented : libc.Documented)
    (quiet : ∀ found ∈ (libc.scan own).found, ¬ found.Ends) :
    libc.scan (libc.scan own).args = libc.scan own := by
  apply documented.rescans
  intro found member missing
  apply quiet found member
  rw [OptFound.Ends, missing]
  rfl

theorem CLibrary.Documented.clean (documented : libc.Documented) (clean : dashes ∉ left :: own) :
    dashes ∉ left :: (libc.scan own).args := by
  intro member
  rcases List.mem_cons.mp member with head | tail
  · exact clean (head ▸ List.mem_cons_self ..)
  · exact clean (List.mem_cons_of_mem _ ((documented.permutes own).mem_iff.mp tail))

/-- The function name that the extension's own arguments choose. -/
def CLibrary.chosenName (libc : CLibrary) (own : List CStr) : Option CStr :=
  (libc.scan own).found.foldl OptFound.chosen none

/-- The state between two calls that split alike: a `--` that was overwritten is one again. -/
structure Again (libc : CLibrary) (left : CStr) (own : List CStr) (behind : List (Option CStr)) (s : ExtState) :
    Prop where
  splits : SplitsAt s.args (left :: own) behind
  argc : s.opts.extArgc = behind.length
  argv : behind = [] → s.opts.extArgv = none
  name : s.opts.funcName = libc.chosenName own
  kept : behind = [] ∨ libc.chosenName own = some dashes

theorem SplitsAt.overwritten {args : List (Option CStr)} {before : List CStr} (splits : SplitsAt args before behind)
    {name : Option CStr} (kept : behind = [] ∨ name = some dashes) : behind.set 0 name = behind := by
  rcases splits.edge with rfl | ⟨tail, rfl⟩
  · rfl
  · rcases kept with none_ | rfl
    · cases none_
    · rfl

/-- The state after a call that has arguments in front of the first `--`. -/
theorem Returned.again {home s' : ExtState} {split : ExtSplit}
    (returned : Returned libc home (left :: own) behind split s') (documented : libc.Documented)
    (splits : SplitsAt home.args (left :: own) behind)
    (quiet : ∀ found ∈ (libc.scan own).found, ¬ found.Ends)
    (name : (libc.scan own).found.foldl OptFound.chosen home.opts.funcName = libc.chosenName own)
    (kept : behind = [] ∨ libc.chosenName own = some dashes) :
    Again libc left (libc.scan own).args behind s' := by
  have chosen : s'.opts.extFuncName = libc.chosenName own := returned.name.trans name
  have rescanned : libc.chosenName (libc.scan own).args = libc.chosenName own :=
    congrArg (fun scan => scan.found.foldl OptFound.chosen none) (documented.rescanned quiet)
  constructor
  · constructor
    · rw [returned.args, chosen, splits.overwritten kept]
      rfl
    · exact documented.clean splits.clean
    · exact splits.edge
  · exact returned.argc
  · exact returned.argv
  · rw [returned.stays, chosen, rescanned]
  · rw [rescanned]
    exact kept

/-- One more call splits as before. -/
theorem Again.call (again : Again libc left own behind s) (documented : libc.Documented)
    (same : libc.dirname left = (dir, left)) (scanned : (libc.scan own).args = own)
    (quiet : ∀ found ∈ (libc.scan own).found, ¬ found.Ends)
    (help : parent.helpExtFunc = false) :
    wp (extOptions libc parent)
      (fun split s' => split = { own, extArgc := behind.length, extArgs := behind, homeDir := some dir } ∧
        Again libc left own behind s') (fun _ _ => False) s := by
  have entered : s.setHomeDir libc =
      ⟨some left :: (own.map some ++ behind), { s.opts with homeDir := some dir }⟩ := by
    rw [setHomeDir_cons again.splits.whole, same]
    rfl
  have splits : SplitsAt (s.setHomeDir libc).args (left :: own) behind := by
    rw [entered]
    exact ⟨rfl, again.splits.clean, again.splits.edge⟩
  have name : (libc.scan own).found.foldl OptFound.chosen (s.setHomeDir libc).opts.funcName =
      libc.chosenName own := by
    have before : (s.setHomeDir libc).opts.funcName = libc.chosenName own := by
      rw [entered]
      exact again.name
    rw [before]
    exact chosen_again _ _
  have fresh : Fresh behind (s.setHomeDir libc).opts := by
    intro none_
    rw [entered]
    exact ⟨again.argc.trans (congrArg List.length none_), again.argv none_⟩
  apply wp_call documented rfl (by rw [entered]; exact List.cons_ne_nil _ _) splits fresh
  · intro _ _ split s' returned
    have chosen : s'.opts.extFuncName = libc.chosenName own := returned.name.trans name
    constructor
    · have dir' : (s.setHomeDir libc).opts.homeDir = some dir := by rw [entered]
      obtain ⟨own', argc, args, homeDir, -⟩ := returned
      rw [chosen, splits.overwritten again.kept] at args
      obtain ⟨_, _, _, _⟩ := split
      exact ExtSplit.mk.injEq .. ▸ ⟨own', argc, args, homeDir.trans dir'⟩
    · have next := returned.again documented splits quiet name again.kept
      rwa [scanned] at next
  · rintro (help' | ⟨found, member, ends⟩)
    · exact absurd (help.symm.trans help') nofun
    · exact absurd ends (quiet found member)

end Again

section Runs
variable {libc : CLibrary} {parent : ParentOptions} {args : List CStr} {calls : Nat} {s : ExtState}

/-- All calls return one split when each keeps an invariant under which it returns that split. -/
theorem extCalls_all {inv : ExtState → Prop} {split : ExtSplit}
    (step : ∀ s, inv s → wp (extOptions libc parent) (fun split' s' => split' = split ∧ inv s') (fun _ _ => False) s)
    (calls : Nat) (s : ExtState) (held : inv s) : ∀ call ∈ extCalls libc parent calls s, call = .ok split := by
  induction calls generalizing s with
  | zero => exact nofun
  | succ calls ih =>
    obtain ⟨_, s', outcome, rfl, held'⟩ := wp_false_iff.mp (step s held)
    intro call member
    rw [extCalls, outcome] at member
    rcases List.mem_cons.mp member with rfl | inRest
    · rfl
    · exact ih s' held' call inRest

theorem repeatable_one : Repeatable libc parent args 0 ∧ Repeatable libc parent args 1 := by
  constructor
  · intro first rest calls
    cases calls
  · intro first rest calls
    rw [extCalls] at calls
    split at calls
    · cases calls
      exact nofun
    · cases calls

/-- The calls behind the first one, from the state in which it has returned. -/
theorem repeatable_of_first (first : wp (extOptions libc parent) (fun split s' =>
      ∃ again : ExtSplit, again.Same split ∧ ∀ call ∈ extCalls libc parent calls s', call = .ok again)
      (fun _ _ => True) { args := args.map some }) : Repeatable libc parent args (calls + 1) := by
  intro split rest made call member
  rw [extCalls] at made
  split at made
  · next outcome =>
    cases made
    obtain ⟨again, same, all⟩ := first.of_ok outcome
    exact ⟨again, all call member, same⟩
  · cases made

theorem Repeatable.second (repeatable : Repeatable libc parent args (calls + 2)) {split : ExtSplit} {s' : ExtState}
    (first : extOptions libc parent { args := args.map some } = .ok split s') :
    ∃ split₂ s₂, extOptions libc parent s' = .ok split₂ s₂ ∧ split₂.Same split := by
  have made : extCalls libc parent (calls + 2) { args := args.map some } =
      .ok split :: extCalls libc parent (calls + 1) s' := by
    rw [extCalls, first]
  have later := repeatable split _ made
  rw [extCalls] at later
  cases outcome : extOptions libc parent s' with
  | ok split₂ s₂ =>
    rw [outcome] at later
    obtain ⟨_, isOk, same⟩ := later _ (List.mem_cons_self ..)
    cases isOk
    exact ⟨split₂, s₂, rfl, same⟩
  | error stop s₂ =>
    rw [outcome] at later
    obtain ⟨_, isOk, -⟩ := later _ (List.mem_cons_self ..)
    cases isOk

/-- A call that has no arguments at all. -/
theorem wp_call_empty (none_ : s.args = []) (argc : s.opts.extArgc = 0) (argv : s.opts.extArgv = none) :
    wp (extOptions libc parent)
      (fun split s' => parent.helpExtFunc = false ∧ split = ⟨[], 0, [], none⟩ ∧ s'.args = [] ∧ s'.opts.extArgc = 0 ∧
        s'.opts.extArgv = none)
      (fun _ _ => parent.helpExtFunc = true) s := by
  obtain ⟨args, homeDir, action, name, debug, dbgExt, helpExt, verbose, argc', argv', extArgc, extArgv, casts, tr⟩ := s
  cases none_
  cases argc
  cases argv
  obtain ⟨debugExtFunc, help⟩ := parent
  cases help with
  | true => exact rfl
  | false => exact ⟨rfl, rfl, rfl, rfl, rfl⟩

/-- The arguments in front of the first `--`, and those from there on. -/
def beforeDashes (args : List CStr) : List CStr := args.takeWhile (· ≠ dashes)

def fromDashes (args : List CStr) : List CStr := args.dropWhile (· ≠ dashes)

theorem splits_dashes (args : List CStr) :
    SplitsAt (args.map some) (beforeDashes args) ((fromDashes args).map some) := by
  induction args with
  | nil => exact ⟨rfl, nofun, .inl rfl⟩
  | cons p args ih =>
    by_cases isDashes : p = dashes
    · have stops : ¬ decide (p ≠ dashes) = true := by simpa using isDashes
      rw [beforeDashes, fromDashes, List.takeWhile_cons, List.dropWhile_cons, if_neg stops, if_neg stops, isDashes]
      exact ⟨rfl, nofun, .inr ⟨_, rfl⟩⟩
    · have goes : decide (p ≠ dashes) = true := decide_eq_true isDashes
      rw [beforeDashes, fromDashes, List.takeWhile_cons, List.dropWhile_cons, if_pos goes, if_pos goes]
      refine ⟨congrArg (some p :: ·) ih.whole, ?_, ih.edge⟩
      exact List.not_mem_cons_of_ne_of_not_mem (Ne.symm isDashes) ih.clean

end Runs

section Condition
variable {libc : CLibrary} {parent : ParentOptions} {path : CStr} {rest : List CStr} {calls : Nat}

/-- The array as `dirname` leaves it. -/
def CLibrary.leftArgs (libc : CLibrary) : List CStr → List CStr
  | [] => []
  | path :: rest => (libc.dirname path).2 :: rest

/-- The extension's own arguments in the first call. -/
def CLibrary.ownArgs (libc : CLibrary) (args : List CStr) : List CStr := (beforeDashes (libc.leftArgs args)).tail

/-- The first call ends the program. -/
def EndsFirst (libc : CLibrary) (parent : ParentOptions) (args : List CStr) : Prop :=
  parent.helpExtFunc = true ∨ ∃ found ∈ (libc.scan (libc.ownArgs args)).found, found.Ends

/-- Neither of the two writes changes what the next call reads: `dirname` finds the same directory in what
it has left, and the name that is written in place of a `--` is one itself. -/
def Unchanged (libc : CLibrary) : List CStr → Prop
  | [] => True
  | path :: rest =>
    (libc.dirname (libc.dirname path).2).1 = (libc.dirname path).1 ∧
      (dashes ∉ libc.leftArgs (path :: rest) ∨ libc.chosenName (libc.ownArgs (path :: rest)) = some dashes)

theorem fromDashes_eq_nil {args : List CStr} : fromDashes args = [] ↔ dashes ∉ args := by
  rw [fromDashes, List.dropWhile_eq_nil_iff]
  constructor
  · intro all member
    exact absurd rfl (of_decide_eq_true (all _ member))
  · intro absent p member
    exact decide_eq_true fun same => absent (same ▸ member)

theorem beforeDashes_other (other : (libc.dirname path).2 ≠ dashes) :
    beforeDashes (libc.leftArgs (path :: rest)) = (libc.dirname path).2 :: libc.ownArgs (path :: rest) := by
  have goes : decide ((libc.dirname path).2 ≠ dashes) = true := decide_eq_true other
  have before : beforeDashes (libc.leftArgs (path :: rest)) = (libc.dirname path).2 :: beforeDashes rest := by
    rw [CLibrary.leftArgs, beforeDashes, List.takeWhile_cons, if_pos goes]
    rfl
  rw [CLibrary.ownArgs, before]
  rfl

theorem beforeDashes_dashes (isDashes : (libc.dirname path).2 = dashes) :
    beforeDashes (libc.leftArgs (path :: rest)) = [] := by
  rw [CLibrary.leftArgs, isDashes]
  rfl

theorem chosenName_dashes (documented : libc.Documented) (isDashes : (libc.dirname path).2 = dashes) :
    libc.chosenName (libc.ownArgs (path :: rest)) = none := by
  rw [CLibrary.ownArgs, beforeDashes_dashes isDashes, CLibrary.chosenName, List.tail_nil, documented.nothing]
  rfl

/-- A second `dirname` leaves what the first one has left. -/
theorem dirname_again (documented : libc.Documented)
    (same : (libc.dirname (libc.dirname path).2).1 = (libc.dirname path).1) :
    libc.dirname (libc.dirname path).2 = ((libc.dirname path).1, (libc.dirname path).2) := by
  refine Prod.ext same ?_
  rcases documented.leaves path with left | left
  · exact congrArg (fun p => (libc.dirname p).2) left
  · rcases documented.leaves (libc.dirname path).2 with left' | left'
    · exact left'
    · exact left'.trans (same.trans left.symm)

abbrev FirstReturned (libc : CLibrary) (path : CStr) (rest : List CStr) (split : ExtSplit) (s' : ExtState) : Prop :=
  Returned libc ⟨(libc.leftArgs (path :: rest)).map some, { homeDir := some (libc.dirname path).1 }⟩
    (beforeDashes (libc.leftArgs (path :: rest))) ((fromDashes (libc.leftArgs (path :: rest))).map some) split s'

theorem wp_first (documented : libc.Documented) (path : CStr) (rest : List CStr) :
    wp (extOptions libc parent)
      (fun split s' => (¬ EndsFirst libc parent (path :: rest)) ∧ FirstReturned libc path rest split s')
      (fun _ _ => EndsFirst libc parent (path :: rest)) { args := (path :: rest).map some } := by
  apply wp_call documented (setHomeDir_cons rfl) (List.cons_ne_nil _ _) (splits_dashes (libc.leftArgs (path :: rest)))
  · exact fun _ => ⟨rfl, rfl⟩
  · intro quiet help split s' returned
    refine ⟨?_, returned⟩
    rintro (help' | ⟨found, member, ends⟩)
    · exact absurd (help.symm.trans help') nofun
    · exact quiet found member ends
  · exact fun ends _ _ => ends

theorem repeatable_of_ends (documented : libc.Documented) (ends : EndsFirst libc parent (path :: rest)) :
    Repeatable libc parent (path :: rest) (calls + 1) :=
  repeatable_of_first ((wp_first documented path rest).mono (fun _ _ first => absurd ends first.1) fun _ _ _ => trivial)

theorem repeatable_of_unchanged (documented : libc.Documented) (unchanged : Unchanged libc (path :: rest)) :
    Repeatable libc parent (path :: rest) (calls + 1) := by
  apply repeatable_of_first
  apply (wp_first documented path rest).mono _ fun _ _ _ => trivial
  rintro split s' ⟨goesOn, returned⟩
  obtain ⟨dir, kept⟩ := unchanged
  have quiet : ∀ found ∈ (libc.scan (libc.ownArgs (path :: rest))).found, ¬ found.Ends :=
    fun found member ends => goesOn (.inr ⟨found, member, ends⟩)
  have help : parent.helpExtFunc = false := Bool.eq_false_iff.mpr fun help => goesOn (.inl help)
  have other : (libc.dirname path).2 ≠ dashes := by
    intro isDashes
    rcases kept with absent | name
    · exact absent (isDashes ▸ List.mem_cons_self ..)
    · rw [chosenName_dashes documented isDashes] at name
      cases name
  have splits := splits_dashes (libc.leftArgs (path :: rest))
  have before : beforeDashes (libc.leftArgs (path :: rest)) = (libc.dirname path).2 :: libc.ownArgs (path :: rest) :=
    beforeDashes_other other
  have kept' : (fromDashes (libc.leftArgs (path :: rest))).map some = [] ∨
      libc.chosenName (libc.ownArgs (path :: rest)) = some dashes :=
    kept.imp_left fun absent => congrArg (List.map some) (fromDashes_eq_nil.mpr absent)
  have name : s'.opts.extFuncName = libc.chosenName (libc.ownArgs (path :: rest)) := returned.name
  let behind := (fromDashes (libc.leftArgs (path :: rest))).map some
  have extArgs : split.extArgs = behind := returned.extArgs.trans (name ▸ splits.overwritten kept')
  have same : ExtSplit.Same
      ⟨(libc.scan (libc.ownArgs (path :: rest))).args, behind.length, behind, some (libc.dirname path).1⟩ split :=
    ⟨returned.own ▸ documented.permutes (libc.ownArgs (path :: rest)), returned.extArgc.symm, extArgs.symm,
      returned.homeDir.symm⟩
  rw [FirstReturned, before] at returned
  rw [before] at splits
  have again := returned.again documented splits quiet rfl kept'
  have rescanned := documented.rescanned quiet
  have quiet' := quiet
  rw [← rescanned] at quiet'
  refine ⟨_, same, extCalls_all (fun s held => ?_) calls s' again⟩
  exact held.call documented (dirname_again documented dir) (congrArg OptScan.args rescanned) quiet' help

section Second
variable {split split₂ : ExtSplit} {s' s₂ : ExtState}

/-- A `--` in `argv[0]` becomes a null pointer, from which the second call has no `home_dir`. -/
theorem left_ne_dashes (documented : libc.Documented)
    (returned : FirstReturned libc path rest split s') (second : extOptions libc parent s' = .ok split₂ s₂)
    (same : split₂.Same split) : (libc.dirname path).2 ≠ dashes := by
  intro isDashes
  have name : s'.opts.extFuncName = none := returned.name.trans (chosenName_dashes documented isDashes)
  have args : s'.args = none :: rest.map some := by
    have none_ : (libc.scan []).args = [] := List.perm_nil.mp (documented.permutes [])
    rw [returned.args, beforeDashes_dashes isDashes, name, List.tail_nil, none_, CLibrary.leftArgs, isDashes]
    rfl
  have entered : s'.setHomeDir libc = ⟨s'.args, { s'.opts with homeDir := none }⟩ := by
    rw [ExtState.setHomeDir, args]
  have some_ : s'.args ≠ [] := args ▸ List.cons_ne_nil _ _
  obtain ⟨homeDir, -⟩ := (wp_call_own entered some_).of_ok second
  cases homeDir.symm.trans (same.homeDir.trans returned.homeDir)

/-- The second call shows what the first one has changed. -/
theorem unchanged_of_second (documented : libc.Documented)
    (returned : FirstReturned libc path rest split s') (second : extOptions libc parent s' = .ok split₂ s₂)
    (same : split₂.Same split) : Unchanged libc (path :: rest) := by
  have before : beforeDashes (libc.leftArgs (path :: rest)) = (libc.dirname path).2 :: libc.ownArgs (path :: rest) :=
    beforeDashes_other (left_ne_dashes documented returned second same)
  have clean := (splits_dashes (libc.leftArgs (path :: rest))).clean
  have name : s'.opts.extFuncName = libc.chosenName (libc.ownArgs (path :: rest)) := returned.name
  have args := returned.args
  rw [before] at args clean
  obtain ⟨homeDir, before₂, behind₂, splits₂, own₂⟩ :=
    (wp_call_own (setHomeDir_cons args) (List.cons_ne_nil _ _)).of_ok second
  have dir : (libc.dirname (libc.dirname path).2).1 = (libc.dirname path).1 :=
    Option.some.inj (homeDir.symm.trans (same.homeDir.trans returned.homeDir))
  refine ⟨dir, or_iff_not_imp_left.mpr fun present => ?_⟩
  -- with another name in its place the second call runs on to a later `--`
  by_contra other
  obtain ⟨slot, tail, cut⟩ := List.exists_cons_of_ne_nil (mt fromDashes_eq_nil.mp present)
  have left : (libc.dirname (libc.dirname path).2).2 = (libc.dirname path).2 :=
    congrArg Prod.snd (dirname_again documented dir)
  rw [left, name, cut] at splits₂
  have shape : SplitsAt (((libc.dirname path).2 :: (libc.scan (libc.ownArgs (path :: rest))).args).map some ++
      libc.chosenName (libc.ownArgs (path :: rest)) :: tail.map some) before₂ behind₂ := splits₂
  have longer := shape.longer (documented.clean clean) other
  have perm := (documented.permutes (libc.ownArgs (path :: rest))).length_eq
  have own : split.own = libc.ownArgs (path :: rest) := returned.own
  have length : before₂.length - 1 = (libc.ownArgs (path :: rest)).length := by
    rw [← List.length_tail, ← own₂, ← own]
    exact same.own.length_eq
  rw [List.length_cons] at longer
  omega

end Second

theorem unchanged_of_repeatable (documented : libc.Documented) (goesOn : ¬ EndsFirst libc parent (path :: rest))
    (repeatable : Repeatable libc parent (path :: rest) (calls + 2)) : Unchanged libc (path :: rest) := by
  have first := (wp_first documented path rest).mono (fun _ _ => id) fun _ _ => goesOn
  obtain ⟨split, s', outcome, -, returned⟩ := wp_false_iff.mp first
  obtain ⟨split₂, s₂, second, same⟩ := repeatable.second outcome
  exact unchanged_of_second documented returned second same

theorem repeatable_nil : Repeatable libc parent [] (calls + 1) := by
  apply repeatable_of_first
  apply (wp_call_empty rfl rfl rfl).mono _ fun _ _ _ => trivial
  rintro _ s' ⟨help, rfl, none_, argc, argv⟩
  refine ⟨⟨[], 0, [], none⟩, ⟨List.Perm.refl _, rfl, rfl, rfl⟩, ?_⟩
  refine @extCalls_all libc parent (fun s => s.args = [] ∧ s.opts.extArgc = 0 ∧ s.opts.extArgv = none) _ ?_ calls s'
    ⟨none_, argc, argv⟩
  intro s held
  apply (wp_call_empty held.1 held.2.1 held.2.2).mono (fun _ _ => And.right)
  exact fun _ _ help' => absurd (help.symm.trans help') nofun

theorem options_repeatable (libc : CLibrary) (documented : libc.Documented) (parent : ParentOptions) (args : List CStr)
    (calls : Nat) :
    Repeatable libc parent args calls ↔ calls ≤ 1 ∨ EndsFirst libc parent args ∨ Unchanged libc args := by
  match calls, args with
  | 0, _ => exact iff_of_true repeatable_one.1 (.inl (Nat.zero_le _))
  | 1, _ => exact iff_of_true repeatable_one.2 (.inl (Nat.le_refl _))
  | calls + 2, [] => exact iff_of_true repeatable_nil (.inr (.inr trivial))
  | calls + 2, path :: rest =>
    constructor
    · intro repeatable
      by_cases ends : EndsFirst libc parent (path :: rest)
      · exact .inr (.inl ends)
      · exact .inr (.inr (unchanged_of_repeatable documented ends repeatable))
    · rintro (few | ends | unchanged)
      · omega
      · exact repeatable_of_ends documented ends
      · exact repeatable_of_unchanged documented unchanged

end Condition

section Plain

/-- `dirname` as it cuts a path in place, behind the last slash in front of the last component. -/
def posixDirname (path : CStr) : CStr × CStr :=
  let component := path.reverse.dropWhile (· = '/')
  match (component.dropWhile (· ≠ '/')).dropWhile (· = '/') with
  | [] => if path.head? = some '/' then (['/'], ['/']) else (['.'], path)
  | dir => (dir.reverse, dir.reverse)

def flagOf : CStr → Option Opt
  | ['-', 'c'] => some .typeCheck
  | ['-', 'A'] => some .astBuild
  | ['-', 'o'] => some .printObj
  | ['-', 't'] => some .printTypes
  | ['-', 'r'] => some .relaxedCasts
  | ['-', 's'] => some .strictCasts
  | ['-', 'T'] => some .traceEval
  | _ => none

/-- `getopt_long` over the extension's short options, each an argument of its own, and names. -/
def plainGetopt (args : List CStr) : OptScan where
  found := (args.filterMap flagOf).map fun opt => { opt }
  args := args.filter (fun p => (flagOf p).isSome) ++ args.filter (fun p => !(flagOf p).isSome)
  optind := 1 + (args.filterMap flagOf).length

def plainLibrary : CLibrary where
  dirname := posixDirname
  getoptLong _ _ args := plainGetopt args

theorem flags_again (args : List CStr) : (plainGetopt args).args.filterMap flagOf = args.filterMap flagOf := by
  induction args with
  | nil => rfl
  | cons p args ih =>
    simp only [plainGetopt] at ih ⊢
    cases flag : flagOf p <;> simp_all

theorem plainLibrary_documented : plainLibrary.Documented where
  leaves path := by
    change (posixDirname path).2 = path ∨ (posixDirname path).2 = (posixDirname path).1
    rw [posixDirname]
    split
    · split
      · exact .inr rfl
      · exact .inl rfl
    · exact .inr rfl
  permutes args := List.filter_append_perm _ args
  rescans args _ := by
    have front : (plainGetopt args).args.filter (fun p => (flagOf p).isSome) =
        args.filter fun p => (flagOf p).isSome := by
      have other : ∀ p ∈ args, (flagOf p).isSome = true → ¬ flagOf p = none := fun p _ flag none_ =>
        absurd (none_ ▸ flag) nofun
      simpa [plainGetopt, List.filter_filter] using other
    have back : (plainGetopt args).args.filter (fun p => !(flagOf p).isSome) =
        args.filter fun p => !(flagOf p).isSome := by
      simp [plainGetopt, List.filter_filter]
    change plainGetopt (plainGetopt args).args = plainGetopt args
    rw [plainGetopt, flags_again, front, back]
    rfl
  nothing := rfl

/-- The second call finds another directory in what the first one has left of the path. -/
theorem options_not_repeatable : plainLibrary.Documented ∧ ¬ Repeatable plainLibrary {} ["abc/abc.so".toList] 2 ∧
    ¬ Repeatable plainLibrary {} ["abc.so".toList, "-o".toList, "--".toList, "x".toList] 2 := by
  refine ⟨plainLibrary_documented, ?_, ?_⟩
  · intro repeatable
    obtain ⟨split₂, s₂, second, same⟩ := repeatable.second rfl
    cases second
    exact absurd same.homeDir (by decide)
  · intro repeatable
    obtain ⟨split₂, s₂, second, same⟩ := repeatable.second rfl
    cases second
    exact absurd same.own.length_eq (by decide)

theorem options_repeatable_in_place : Repeatable plainLibrary {} ["abc.so".toList, "-o".toList, "x".toList] 3 :=
  (options_repeatable plainLibrary plainLibrary_documented {} _ 3).mpr (.inr (.inr ⟨by decide, .inl (by decide)⟩))

end Plain

end CxxpyTree
