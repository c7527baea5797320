import CxxpyTree.ExtOptions
import Mathlib.Data.List.Perm.Basic

/-! One call for the options of an extension: what the option loop can do, where the array splits, and the
state that a call leaves behind. -/

namespace CxxpyTree

open Machine

/-- What the C library documents of the two functions. `dirname` may write the directory that it
returns into its argument. `getopt_long` moves the options to the front, where a second scan finds them
again; only an option that was the last argument, and had none, might find one there. -/
structure CLibrary.Documented (libc : CLibrary) : Prop where
  leaves : ∀ path, (libc.dirname path).2 = path ∨ (libc.dirname path).2 = (libc.dirname path).1
  permutes : ∀ args, (libc.scan args).args.Perm args
  rescans : ∀ args, (∀ found ∈ (libc.scan args).found, found.opt ≠ .missingArg) →
    libc.scan (libc.scan args).args = libc.scan args
  nothing : (libc.scan []).found = []

section Options

/-- The results that end the program, in the loop or behind it. -/
def Opt.ends : Opt → Bool
  | .missingArg | .help | .zero | .version | .dumpOptions => true
  | _ => false

def OptFound.Ends (found : OptFound) : Prop := found.opt.ends

/-- The function name after an option, from the one before it. -/
def OptFound.chosen (name : Option CStr) (found : OptFound) : Option CStr :=
  match found.opt with
  | .extFunc => found.optarg
  | .printObj => some "printer::print".toList
  | .typeCheck | .astBuild | .printTypes => none
  | _ => name

/-- What the loop may do to the options: it leaves the split alone, and changes the function name. -/
structure Sets (g : ExtOptions → ExtOptions) (name : Option CStr → Option CStr) : Prop where
  homeDir : ∀ o, (g o).homeDir = o.homeDir
  extArgc : ∀ o, (g o).extArgc = o.extArgc
  extArgv : ∀ o, (g o).extArgv = o.extArgv
  funcName : ∀ o, (g o).funcName = name o.funcName

namespace Sets
variable {g g' : ExtOptions → ExtOptions} {name name' : Option CStr → Option CStr}

theorem same : Sets id id where
  homeDir _ := rfl
  extArgc _ := rfl
  extArgv _ := rfl
  funcName _ := rfl

theorem comp (second : Sets g' name') (first : Sets g name) : Sets (fun o => g' (g o)) fun n => name' (name n) where
  homeDir o := (second.homeDir _).trans (first.homeDir o)
  extArgc o := (second.extArgc _).trans (first.extArgc o)
  extArgv o := (second.extArgv _).trans (first.extArgv o)
  funcName o := (second.funcName _).trans (congrArg name' (first.funcName o))

end Sets

theorem takeOpt_quiet {found : OptFound} (quiet : ¬ found.Ends) :
    ∃ g, Sets g (OptFound.chosen · found) ∧ ∀ o b, takeOpt (o, b) found = .ok (g o, b) := by
  obtain ⟨opt, optarg, optopt, arg⟩ := found
  have flag {opt : Opt} (g : ExtOptions → ExtOptions) (sets : ∀ o, (g o).homeDir = o.homeDir ∧
      (g o).extArgc = o.extArgc ∧ (g o).extArgv = o.extArgv ∧
      (g o).funcName = OptFound.chosen o.funcName ⟨opt, optarg, optopt, arg⟩)
      (taken : ∀ o b, takeOpt (o, b) ⟨opt, optarg, optopt, arg⟩ = .ok (g o, b)) :
      ∃ g, Sets g (OptFound.chosen · ⟨opt, optarg, optopt, arg⟩) ∧
        ∀ o b, takeOpt (o, b) ⟨opt, optarg, optopt, arg⟩ = .ok (g o, b) :=
    ⟨g, ⟨fun o => (sets o).1, fun o => (sets o).2.1, fun o => (sets o).2.2.1, fun o => (sets o).2.2.2⟩, taken⟩
  cases opt with
  | extFunc =>
    exact flag (fun o => { o with action := .extFunc, extFuncName := optarg }) (fun _ => ⟨rfl, rfl, rfl, rfl⟩)
      fun _ _ => rfl
  | debug => exact flag (fun o => { o with debug := true }) (fun _ => ⟨rfl, rfl, rfl, rfl⟩) fun _ _ => rfl
  | noDebug => exact flag (fun o => { o with debug := false }) (fun _ => ⟨rfl, rfl, rfl, rfl⟩) fun _ _ => rfl
  | debugExtFunc => exact flag (fun o => { o with debugExtFunc := true }) (fun _ => ⟨rfl, rfl, rfl, rfl⟩) fun _ _ => rfl
  | helpExtFunc => exact flag (fun o => { o with helpExtFunc := true }) (fun _ => ⟨rfl, rfl, rfl, rfl⟩) fun _ _ => rfl
  | verbose => exact flag (fun o => { o with verbose := true }) (fun _ => ⟨rfl, rfl, rfl, rfl⟩) fun _ _ => rfl
  | typeCheck => exact flag (fun o => { o with action := .typeCheck }) (fun _ => ⟨rfl, rfl, rfl, rfl⟩) fun _ _ => rfl
  | astBuild => exact flag (fun o => { o with action := .astBuild }) (fun _ => ⟨rfl, rfl, rfl, rfl⟩) fun _ _ => rfl
  | printObj => exact flag (fun o => { o with action := .printObj }) (fun _ => ⟨rfl, rfl, rfl, rfl⟩) fun _ _ => rfl
  | printTypes => exact flag (fun o => { o with action := .printTypes }) (fun _ => ⟨rfl, rfl, rfl, rfl⟩) fun _ _ => rfl
  | relaxedCasts =>
    exact flag (fun o => { o with castsType := .relaxedCasts }) (fun _ => ⟨rfl, rfl, rfl, rfl⟩) fun _ _ => rfl
  | strictCasts =>
    exact flag (fun o => { o with castsType := .strictCasts }) (fun _ => ⟨rfl, rfl, rfl, rfl⟩) fun _ _ => rfl
  | traceEval => exact flag (fun o => { o with traceEval := true }) (fun _ => ⟨rfl, rfl, rfl, rfl⟩) fun _ _ => rfl
  | noTraceEval => exact flag (fun o => { o with traceEval := false }) (fun _ => ⟨rfl, rfl, rfl, rfl⟩) fun _ _ => rfl
  | missingArg | help | zero | version | dumpOptions => exact absurd rfl quiet

theorem invOpt_ends {found : OptFound} {opts : ExtOptions} {bits : BitsOpts} {r : ExtOptions × BitsOpts}
    (taken : invOpt found opts bits = .ok r) : r.2 ≠ {} := by
  rw [invOpt] at taken
  split at taken
  · cases taken
  · split at taken
    · cases taken
    · cases taken
      exact fun silent => nomatch congrArg BitsOpts.usage silent

theorem takeOpt_ends {found : OptFound} (ends : found.Ends) {s r : ExtOptions × BitsOpts}
    (taken : takeOpt s found = .ok r) : r.2 ≠ {} := by
  obtain ⟨opt, optarg, optopt, arg⟩ := found
  cases opt with
  | help => exact invOpt_ends taken
  | version =>
    cases taken
    exact fun silent => nomatch congrArg BitsOpts.version silent
  | dumpOptions =>
    cases taken
    exact fun silent => nomatch congrArg BitsOpts.dump silent
  | zero =>
    cases taken
    exact fun silent => nomatch congrArg BitsOpts.usage silent
  | missingArg =>
    change (if ['-', '-'] <+: arg then _ else _) = Except.ok r at taken
    split at taken <;> cases taken
  | _ => exact nomatch ends

/-- The `getopt_long` loop over what is found. -/
def takeOpts (found : List OptFound) (opts : ExtOptions) : Except OptStop (ExtOptions × BitsOpts) :=
  found.foldlM takeOpt (opts, {})

theorem foldlM_quiet {found : List OptFound} (quiet : ∀ f ∈ found, ¬ f.Ends) :
    ∃ g, Sets g (found.foldl OptFound.chosen ·) ∧ ∀ o b, found.foldlM takeOpt (o, b) = .ok (g o, b) := by
  induction found with
  | nil => exact ⟨id, .same, fun _ _ => rfl⟩
  | cons first rest ih =>
    obtain ⟨g, sets, taken⟩ := takeOpt_quiet (quiet first (List.mem_cons_self ..))
    obtain ⟨g', sets', taken'⟩ := ih fun f member => quiet f (List.mem_cons_of_mem _ member)
    refine ⟨fun o => g' (g o), sets'.comp sets, fun o b => ?_⟩
    rw [List.foldlM_cons, taken]
    exact taken' (g o) b

/-- A bit that is set stays set. -/
theorem foldlM_raised {found : List OptFound} {s r : ExtOptions × BitsOpts} (raised : s.2 ≠ {})
    (taken : found.foldlM takeOpt s = .ok r) : r.2 ≠ {} := by
  induction found generalizing s with
  | nil =>
    cases taken
    exact raised
  | cons first rest ih =>
    obtain ⟨s', step, onward⟩ := except_bind_eq_ok.mp taken
    apply ih _ onward
    by_cases ends : first.Ends
    · exact takeOpt_ends ends step
    · obtain ⟨g, -, same⟩ := takeOpt_quiet ends
      cases (same s.1 s.2).symm.trans step
      exact raised

theorem foldlM_ends {found : List OptFound} (ends : ∃ f ∈ found, f.Ends) {s r : ExtOptions × BitsOpts}
    (taken : found.foldlM takeOpt s = .ok r) : r.2 ≠ {} := by
  induction found generalizing s with
  | nil => exact absurd ends nofun
  | cons first rest ih =>
    obtain ⟨s', step, onward⟩ := except_bind_eq_ok.mp taken
    obtain ⟨f, member, isEnd⟩ := ends
    rcases List.mem_cons.mp member with rfl | inRest
    · exact foldlM_raised (takeOpt_ends isEnd step) onward
    · exact ih ⟨f, inRest, isEnd⟩ onward

/-- The loop goes through without a bit from all options, or from none. -/
theorem takeOpts_cases (found : List OptFound) :
    ((∃ f ∈ found, f.Ends) ∧ ∀ opts after, takeOpts found opts ≠ .ok (after, {})) ∨
    (∀ f ∈ found, ¬ f.Ends) ∧
      ∃ g, Sets g (found.foldl OptFound.chosen ·) ∧ ∀ opts, takeOpts found opts = .ok (g opts, {}) := by
  by_cases ends : ∃ f ∈ found, f.Ends
  · exact .inl ⟨ends, fun opts after taken => foldlM_ends ends taken rfl⟩
  · have quiet : ∀ f ∈ found, ¬ f.Ends := fun f member isEnd => ends ⟨f, member, isEnd⟩
    obtain ⟨g, sets, taken⟩ := foldlM_quiet quiet
    exact .inr ⟨quiet, g, sets, fun opts => taken opts {}⟩

theorem chosen_cases (found : OptFound) :
    (∃ name, ∀ n, OptFound.chosen n found = name) ∨ ∀ n, OptFound.chosen n found = n := by
  obtain ⟨opt, optarg, optopt, arg⟩ := found
  cases opt with
  | extFunc | printObj | typeCheck | astBuild | printTypes => exact .inl ⟨_, fun _ => rfl⟩
  | _ => exact .inr fun _ => rfl

/-- The same options once more choose the same function name. -/
theorem chosen_again (found : List OptFound) (name : Option CStr) :
    found.foldl OptFound.chosen (found.foldl OptFound.chosen name) = found.foldl OptFound.chosen name := by
  have cases_ : (∃ last, ∀ n, found.foldl OptFound.chosen n = last) ∨ ∀ n, found.foldl OptFound.chosen n = n := by
    induction found with
    | nil => exact .inr fun _ => rfl
    | cons first rest ih =>
      rcases ih with ⟨last, same⟩ | same
      · exact .inl ⟨last, fun n => same _⟩
      · rcases chosen_cases first with ⟨last, same'⟩ | same'
        · exact .inl ⟨last, fun n => (same _).trans (same' n)⟩
        · exact .inr fun n => (same _).trans (same' n)
  rcases cases_ with ⟨last, same⟩ | same
  · rw [same, same]
  · exact same _

end Options

section Dashes
variable {before : List CStr} {behind : List (Option CStr)}

theorem findDashes_append (clean : dashes ∉ before) (behind : List (Option CStr)) :
    findDashes (before.map some ++ behind) = (findDashes behind).map (· + before.length) := by
  induction before with
  | nil =>
    cases found : findDashes behind with
    | error stop => exact found
    | ok ptr => exact found
  | cons p before ih =>
    have other : p ≠ dashes := Ne.symm (List.ne_of_not_mem_cons clean)
    rw [List.map_cons, List.cons_append, findDashes, if_neg other, ih (List.not_mem_of_not_mem_cons clean)]
    cases findDashes behind with
    | error stop => rfl
    | ok ptr => rfl

/-- The array splits at its first `--`, or there is none. -/
structure SplitsAt (args : List (Option CStr)) (before : List CStr) (behind : List (Option CStr)) : Prop where
  whole : args = before.map some ++ behind
  clean : dashes ∉ before
  edge : behind = [] ∨ ∃ tail, behind = some dashes :: tail

theorem SplitsAt.found {args : List (Option CStr)} (splits : SplitsAt args before behind) :
    findDashes args = .ok before.length := by
  rw [splits.whole, findDashes_append splits.clean]
  rcases splits.edge with rfl | ⟨tail, rfl⟩
  · exact congrArg Except.ok (Nat.zero_add _)
  · rw [findDashes, if_pos rfl]
    exact congrArg Except.ok (Nat.zero_add _)

/-- A first `--` that is overwritten leaves a later one, if any. -/
theorem SplitsAt.longer {before₂ : List CStr} {behind₂ tail : List (Option CStr)} {name : Option CStr}
    (splits : SplitsAt (before.map some ++ name :: tail) before₂ behind₂) (clean : dashes ∉ before)
    (other : name ≠ some dashes) : before.length < before₂.length := by
  have found := splits.found
  rw [findDashes_append clean] at found
  cases name with
  | none => cases found
  | some m =>
    rw [findDashes, if_neg fun same => other (congrArg some same)] at found
    cases inner : findDashes tail with
    | error stop =>
      rw [inner] at found
      cases found
    | ok ptr =>
      rw [inner] at found
      have count : ptr + 1 + before.length = before₂.length := Except.ok.inj found
      omega

theorem splits_or_null (args : List (Option CStr)) :
    (∃ before behind, SplitsAt args before behind) ∨ ∃ stop, findDashes args = .error stop := by
  induction args with
  | nil => exact .inl ⟨[], [], rfl, nofun, .inl rfl⟩
  | cons slot args ih =>
    cases slot with
    | none => exact .inr ⟨_, rfl⟩
    | some p =>
      by_cases isDashes : p = dashes
      · subst isDashes
        exact .inl ⟨[], _, rfl, nofun, .inr ⟨args, rfl⟩⟩
      · rcases ih with ⟨before, behind, whole, clean, edge⟩ | ⟨stop, failed⟩
        · refine .inl ⟨p :: before, behind, by rw [whole]; rfl, ?_, edge⟩
          exact List.not_mem_cons_of_ne_of_not_mem (Ne.symm isDashes) clean
        · refine .inr ⟨stop, ?_⟩
          rw [findDashes, if_neg isDashes, failed]
          rfl

theorem ExtState.own_eq {s : ExtState} (splits : SplitsAt s.args before behind) :
    s.own before.length = before.tail := by
  have front : s.args.take before.length = before.map some := by
    rw [splits.whole]
    exact List.take_left' (List.length_map some)
  rw [ExtState.own, front, List.drop_one, ← List.map_tail]
  change (before.tail.map some).filterMap id = before.tail
  rw [List.filterMap_map]
  exact List.filterMap_some

theorem ExtState.permute_eq {s : ExtState} (splits : SplitsAt s.args before behind) (args : List CStr) :
    s.permute before.length args = (before.take 1).map some ++ args.map some ++ behind := by
  have front : s.args.take (min before.length 1) = (before.take 1).map some := by
    rw [splits.whole, Nat.min_comm, ← List.take_take, List.take_left' (List.length_map some), List.map_take]
  have rest : s.args.drop before.length = behind := by
    rw [splits.whole]
    exact List.drop_left' (List.length_map some)
  rw [ExtState.permute, front, rest]

end Dashes

section Call
variable {libc : CLibrary} {parent : ParentOptions} {s : ExtState}

/-- The state after a call that comes back, from the options behind the loop. -/
def ExtState.after (libc : CLibrary) (parent : ParentOptions) (s : ExtState) (argc : Nat) (opts : ExtOptions) :
    ExtState :=
  let scan := libc.scan (s.own argc)
  let done := ({ args := s.permute argc scan.args, opts } : ExtState).parseDone
    ((argc + 2 ^ 64 - scan.optind) % 2 ^ 64) (some scan.optind)
  { done with opts := { done.opts with debug := done.opts.debug || parent.debugExtFunc } }

theorem wp_exitOn {bits : BitsOpts} {post : PUnit → ExtState → Prop} {fail : OptStop → ExtState → Prop}
    (silent : bits = {} → post ⟨⟩ s) (ends : bits ≠ {} → fail .exit s) : wp (exitOn bits) post fail s := by
  by_cases set : bits = {}
  · subst set
    exact silent rfl
  · have some_ : (bits.version || bits.dump || bits.usage) = true := by
      obtain ⟨dump, usage, version⟩ := bits
      by_contra unset
      simp only [Bool.or_eq_true, not_or, Bool.not_eq_true] at unset
      exact set (by rw [unset.1.1, unset.1.2, unset.2])
    rw [exitOn, if_pos some_]
    exact ends set

theorem wp_extOptions {home : ExtState} {argc : Nat} {post : ExtSplit → ExtState → Prop}
    {fail : OptStop → ExtState → Prop} (entered : s.setHomeDir libc = home) (some_ : home.args ≠ [])
    (found : findDashes home.args = .ok argc)
    (returned : ∀ opts, takeOpts (libc.scan (home.own argc)).found (home.splitAt argc).opts =
      .ok (opts, {}) → parent.helpExtFunc = false →
      post ((home.after libc parent argc opts).split (home.own argc)) (home.after libc parent argc opts))
    (stopped : (parent.helpExtFunc = true ∨
      ∀ opts, takeOpts (libc.scan (home.own argc)).found (home.splitAt argc).opts ≠ .ok (opts, {})) →
      ∀ stop s', fail stop s') :
    wp (extOptions libc parent) post fail s := by
  have count : ¬ home.args.length = 0 := fun empty => some_ (List.length_eq_zero_iff.mp empty)
  have same : (home.splitAt argc).args = home.args := by
    rw [ExtState.splitAt]
    split <;> rfl
  have own : (home.splitAt argc).own argc = home.own argc := by rw [ExtState.own, same, ExtState.own]
  have permuted : (home.splitAt argc).permute argc = home.permute argc := by
    funext args
    rw [ExtState.permute, same, ExtState.permute]
  rw [extOptions, parseBase]
  simp only [wp_bind, wp_modify, wp_get, entered, if_neg count, found, scanOpts, own, permuted]
  cases scanned : takeOpts (libc.scan (home.own argc)).found (home.splitAt argc).opts with
  | error stop =>
    rw [takeOpts] at scanned
    rw [scanned]
    refine stopped (.inr fun opts same => ?_) stop _
    cases scanned.symm.trans same
  | ok result =>
    obtain ⟨opts, bits⟩ := result
    have ends : bits ≠ {} → ∀ stop s', fail stop s' := by
      intro other
      apply stopped
      refine .inr fun opts' same => other ?_
      exact (Prod.mk.inj (Except.ok.inj (scanned.symm.trans same))).2
    rw [takeOpts] at scanned
    simp only [scanned, wp_bind, wp_set, wp_pure]
    apply wp_exitOn
    · rintro rfl
      cases help : parent.helpExtFunc with
      | true => exact stopped (.inl help) .exit _
      | false => exact returned opts scanned help
    · exact fun other => ends other .exit _

/-- A second look at the members behind `parse_done` finds the name that is there. -/
theorem ExtState.parseDone_funcName {s : ExtState} {argc : Nat} {argv : Option Nat} :
    (s.parseDone argc argv).opts.funcName = s.opts.funcName := by
  change (if s.opts.action = .extFunc then s.opts.funcName else getExtFuncName s.opts.action) = s.opts.funcName
  split
  · rfl
  · next other => exact (if_neg other).symm

/-- A call that comes back, from the array in front of the first `--` and from there on. -/
structure Returned (libc : CLibrary) (home : ExtState) (before : List CStr) (behind : List (Option CStr))
    (split : ExtSplit) (s' : ExtState) : Prop where
  own : split.own = before.tail
  extArgc : split.extArgc = behind.length
  extArgs : split.extArgs = behind.set 0 s'.opts.extFuncName
  homeDir : split.homeDir = home.opts.homeDir
  args : s'.args = (before.take 1).map some ++ (libc.scan before.tail).args.map some ++
    behind.set 0 s'.opts.extFuncName
  argc : s'.opts.extArgc = behind.length
  argv : behind = [] → s'.opts.extArgv = none
  name : s'.opts.extFuncName =
    (libc.scan before.tail).found.foldl OptFound.chosen home.opts.funcName
  stays : s'.opts.funcName = s'.opts.extFuncName

/-- No member is left from an earlier call that a call without a `--` would keep. -/
def Fresh (behind : List (Option CStr)) (opts : ExtOptions) : Prop :=
  behind = [] → opts.extArgc = 0 ∧ opts.extArgv = none

/-- The options with which the loop starts. -/
theorem ExtState.splitAt_opts {home : ExtState} {before : List CStr} {behind : List (Option CStr)}
    (splits : SplitsAt home.args before behind) (fresh : Fresh behind home.opts) :
    let start := (home.splitAt before.length).opts
    start.extArgc = behind.length ∧ (start.extArgv = if behind = [] then none else some before.length) ∧
      start.homeDir = home.opts.homeDir ∧ start.funcName = home.opts.funcName := by
  have length : home.args.length = before.length + behind.length := by
    rw [splits.whole, List.length_append, List.length_map]
  intro start
  cases behind with
  | nil =>
    have stays : start = home.opts := by
      simp only [start, ExtState.splitAt, length, List.length_nil, Nat.add_zero, Nat.lt_irrefl, if_false]
    obtain ⟨argc, argv⟩ := fresh rfl
    rw [stays]
    exact ⟨argc, argv, rfl, rfl⟩
  | cons slot tail =>
    have cut : start = { home.opts with extArgc := tail.length + 1, extArgv := some before.length } := by
      have inside : before.length < before.length + (tail.length + 1) := Nat.lt_add_of_pos_right (Nat.succ_pos _)
      simp only [start, ExtState.splitAt, length, List.length_cons, if_pos inside, Nat.add_sub_cancel_left]
    rw [cut]
    exact ⟨rfl, rfl, rfl, rfl⟩

theorem returned_of_after (documented : libc.Documented) {home : ExtState} {before : List CStr}
    {behind : List (Option CStr)} (splits : SplitsAt home.args before behind) (fresh : Fresh behind home.opts)
    {g : ExtOptions → ExtOptions}
    (sets : Sets g ((libc.scan before.tail).found.foldl OptFound.chosen ·)) :
    Returned libc home before behind
      ((home.after libc parent before.length (g (home.splitAt before.length).opts)).split (home.own before.length))
      (home.after libc parent before.length (g (home.splitAt before.length).opts)) := by
  obtain ⟨argc, argv, homeDir, name⟩ := ExtState.splitAt_opts splits fresh
  generalize (home.splitAt before.length).opts = start at argc argv homeDir name ⊢
  let perm := (libc.scan before.tail).args
  have place : ((before.take 1).map some ++ perm.map some).length = before.length := by
    simp only [List.length_append, List.length_map, perm, (documented.permutes before.tail).length_eq]
    cases before <;> simp [Nat.add_comm]
  have argc' : (g start).extArgc = behind.length := (sets.extArgc start).trans argc
  have argv' : (g start).extArgv = if behind = [] then none else some before.length := (sets.extArgv start).trans argv
  have args : (home.after libc parent before.length (g start)).args =
      (before.take 1).map some ++ perm.map some ++ behind.set 0 (g start).funcName := by
    simp only [ExtState.after, ExtState.parseDone, ExtState.permute_eq splits, ExtState.own_eq splits, argv', argc']
    cases behind with
    | nil => rfl
    | cons slot tail =>
      simp only [if_neg (List.cons_ne_nil slot tail), List.length_cons, Nat.succ_pos, if_true]
      rw [List.set_append_right _ _ (Nat.le_of_eq place), place, Nat.sub_self]
  have extArgs : ((home.after libc parent before.length (g start)).split (home.own before.length)).extArgs =
      behind.set 0 (g start).funcName := by
    have at_ : (home.after libc parent before.length (g start)).opts.extArgv = (g start).extArgv := rfl
    have count : (home.after libc parent before.length (g start)).opts.extArgc = (g start).extArgc := rfl
    rw [ExtState.split, args, at_, count, argv', argc']
    cases behind with
    | nil => rfl
    | cons slot tail =>
      simp only [if_neg (List.cons_ne_nil slot tail)]
      rw [List.drop_left' place, List.take_of_length_le (Nat.le_of_eq List.length_set)]
  exact {
    own := ExtState.own_eq splits
    extArgc := argc'
    extArgs := extArgs
    homeDir := (sets.homeDir start).trans homeDir
    args := args
    argc := argc'
    argv := fun none_ => argv'.trans (if_pos none_)
    name := name ▸ sets.funcName start
    stays := @ExtState.parseDone_funcName ⟨[], g start⟩ 0 none }

/-- A call over an array that is not empty and has no null pointer in front of its first `--`. -/
theorem wp_call (documented : libc.Documented) {home : ExtState} {before : List CStr} {behind : List (Option CStr)}
    {post : ExtSplit → ExtState → Prop} {fail : OptStop → ExtState → Prop}
    (entered : s.setHomeDir libc = home) (some_ : home.args ≠ []) (splits : SplitsAt home.args before behind)
    (fresh : Fresh behind home.opts)
    (returned : (∀ found ∈ (libc.scan before.tail).found, ¬ found.Ends) →
      parent.helpExtFunc = false → ∀ split s', Returned libc home before behind split s' → post split s')
    (stopped : (parent.helpExtFunc = true ∨
      ∃ found ∈ (libc.scan before.tail).found, found.Ends) → ∀ stop s', fail stop s') :
    wp (extOptions libc parent) post fail s := by
  apply wp_extOptions entered some_ splits.found
  · intro opts taken help
    rw [ExtState.own_eq splits] at taken
    rcases takeOpts_cases (libc.scan before.tail).found with
      ⟨-, never⟩ | ⟨quiet, g, sets, always⟩
    · exact absurd taken (never _ _)
    · obtain rfl : opts = g _ := (Prod.mk.inj (Except.ok.inj (taken.symm.trans (always _)))).1
      exact returned quiet help _ _ (returned_of_after documented splits fresh sets)
  · rintro (help | never)
    · exact stopped (.inl help)
    · rcases takeOpts_cases (libc.scan before.tail).found with ⟨ends, -⟩ | ⟨-, g, sets, always⟩
      · exact stopped (.inr ends)
      · rw [ExtState.own_eq splits] at never
        exact absurd (always _) (never _)

/-- Whatever earlier calls have left, a call that comes back has set `home_dir` and has taken the
arguments in front of the first `--`. -/
theorem wp_call_own {home : ExtState} (entered : s.setHomeDir libc = home) (some_ : home.args ≠ []) :
    wp (extOptions libc parent) (fun split _ => split.homeDir = home.opts.homeDir ∧
      ∃ before behind, SplitsAt home.args before behind ∧ split.own = before.tail) (fun _ _ => True) s := by
  rcases splits_or_null home.args with ⟨before, behind, splits⟩ | ⟨stop, failed⟩
  · apply wp_extOptions entered some_ splits.found
    · intro opts taken _
      refine ⟨?_, before, behind, splits, ExtState.own_eq splits⟩
      have kept : (home.splitAt before.length).opts.homeDir = home.opts.homeDir := by
        rw [ExtState.splitAt]
        split <;> rfl
      rcases takeOpts_cases (libc.scan (home.own before.length)).found with
        ⟨-, never⟩ | ⟨-, g, sets, always⟩
      · exact absurd taken (never _ _)
      · obtain rfl : opts = g _ := (Prod.mk.inj (Except.ok.inj (taken.symm.trans (always _)))).1
        exact (sets.homeDir _).trans kept
    · exact fun _ _ _ => trivial
  · have count : ¬ home.args.length = 0 := fun empty => some_ (List.length_eq_zero_iff.mp empty)
    rw [extOptions, parseBase]
    simp only [wp_bind, wp_modify, wp_get, entered, if_neg count, failed]
    trivial

theorem setHomeDir_cons {path : CStr} {rest : List (Option CStr)} (args : s.args = some path :: rest) :
    s.setHomeDir libc =
      ⟨some (libc.dirname path).2 :: rest, { s.opts with homeDir := some (libc.dirname path).1 }⟩ := by
  rw [ExtState.setHomeDir, args]

end Call

end CxxpyTree
