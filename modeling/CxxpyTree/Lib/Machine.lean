import Mathlib.Tactic.Common

/-! Programs that change a state and may stop with an error, and the weakest precondition
calculus by which a run is followed through `do` blocks. -/

namespace Machine

variable {ε σ α β : Type}

/-- The run of `x` from `s` returns with `post`, or stops with `fail`. -/
def wp (x : EStateM ε σ α) (post : α → σ → Prop) (fail : ε → σ → Prop) (s : σ) : Prop :=
  match x s with
  | .ok a s' => post a s'
  | .error e s' => fail e s'

/-- A scope with an action on entry and one on exit; the exit is taken by a return and by an error. -/
def guarded (enter leave : σ → σ) (x : EStateM ε σ α) : EStateM ε σ α := fun s =>
  match x (enter s) with
  | .ok a s' => .ok a (leave s')
  | .error e s' => .error e (leave s')

/-- A scope that is left through a destructor, by a return and by an error. The destructor must
not fail: its own error ends the program as `terminate`. -/
def destructing (terminate : ε) (leave : EStateM ε σ PUnit) (x : EStateM ε σ α) : EStateM ε σ α := fun s =>
  match x s with
  | .ok a s' =>
    match leave s' with
    | .ok _ after => .ok a after
    | .error _ after => .error terminate after
  | .error e s' =>
    match leave s' with
    | .ok _ after => .error e after
    | .error _ after => .error terminate after

section Rules
variable {x : EStateM ε σ α} {f : α → EStateM ε σ β} {s s' : σ} {a : α} {b : β} {e : ε}
variable {post post' : α → σ → Prop} {fail fail' : ε → σ → Prop}

@[simp] theorem wp_pure : wp (pure a : EStateM ε σ α) post fail s ↔ post a s := Iff.rfl

@[simp] theorem wp_throw : wp (throw e : EStateM ε σ α) post fail s ↔ fail e s := Iff.rfl

@[simp] theorem wp_get {post : σ → σ → Prop} : wp (get : EStateM ε σ σ) post fail s ↔ post s s := Iff.rfl

@[simp] theorem wp_set {post : PUnit → σ → Prop} :
    wp (set s' : EStateM ε σ PUnit) post fail s ↔ post ⟨⟩ s' := Iff.rfl

@[simp] theorem wp_modify {change : σ → σ} {post : PUnit → σ → Prop} :
    wp (modify change : EStateM ε σ PUnit) post fail s ↔ post ⟨⟩ (change s) := Iff.rfl

@[simp] theorem wp_bind {post : β → σ → Prop} :
    wp (x >>= f) post fail s ↔ wp x (fun a s' => wp (f a) post fail s') fail s := by
  change wp (EStateM.bind x f) post fail s ↔ _
  unfold wp EStateM.bind
  cases x s <;> exact Iff.rfl

@[simp] theorem wp_guarded {enter leave : σ → σ} :
    wp (guarded enter leave x) post fail s ↔
      wp x (fun a s' => post a (leave s')) (fun e s' => fail e (leave s')) (enter s) := by
  unfold wp guarded
  cases x (enter s) <;> exact Iff.rfl

@[simp] theorem wp_destructing {terminate : ε} {leave : EStateM ε σ PUnit} :
    wp (destructing terminate leave x) post fail s ↔
      wp x (fun a s' => wp leave (fun _ => post a) (fun _ => fail terminate) s')
        (fun e s' => wp leave (fun _ => fail e) (fun _ => fail terminate) s') s := by
  unfold wp destructing
  cases x s with
  | ok a s' => dsimp only; cases leave s' <;> exact Iff.rfl
  | error e s' => dsimp only; cases leave s' <;> exact Iff.rfl

theorem wp_ite {c : Prop} [Decidable c] {x y : EStateM ε σ α} :
    wp (if c then x else y) post fail s ↔ (c → wp x post fail s) ∧ (¬c → wp y post fail s) := by
  by_cases holds : c <;> simp [holds]

theorem wp.mono (run : wp x post fail s) (returned : ∀ a s', post a s' → post' a s')
    (stopped : ∀ e s', fail e s' → fail' e s') : wp x post' fail' s := by
  unfold wp at run ⊢
  cases outcome : x s with
  | ok a s' => rw [outcome] at run; exact returned a s' run
  | error e s' => rw [outcome] at run; exact stopped e s' run

theorem wp.of_ok (run : wp x post fail s) (outcome : x s = .ok a s') : post a s' := by
  unfold wp at run
  rwa [outcome] at run

theorem wp.of_error (run : wp x post fail s) (outcome : x s = .error e s') : fail e s' := by
  unfold wp at run
  rwa [outcome] at run

/-- A run that is known: every postcondition can be read off its result. -/
theorem wp_of_ok (outcome : x s = .ok a s') : wp x post fail s ↔ post a s' := by
  unfold wp
  rw [outcome]

theorem wp_of_error (outcome : x s = .error e s') : wp x post fail s ↔ fail e s' := by
  unfold wp
  rw [outcome]

theorem wp_any : wp x (fun _ _ => True) (fun _ _ => True) s := by
  unfold wp
  cases x s <;> trivial

theorem wp.and (run : wp x post fail s) (run' : wp x post' fail' s) :
    wp x (fun a s' => post a s' ∧ post' a s') (fun e s' => fail e s' ∧ fail' e s') s := by
  unfold wp at run run' ⊢
  cases outcome : x s with
  | ok a s' => rw [outcome] at run run'; exact ⟨run, run'⟩
  | error e s' => rw [outcome] at run run'; exact ⟨run, run'⟩

/-- What holds before `x` holds after it, whether `x` returns or stops. -/
def Keeps (I : σ → Prop) (x : EStateM ε σ α) : Prop := ∀ s, I s → wp x (fun _ s' => I s') (fun _ s' => I s') s

variable {I : σ → Prop}

theorem Keeps.pure : Keeps I (Pure.pure a : EStateM ε σ α) := fun _ held => held

theorem Keeps.throw : Keeps I (MonadExcept.throw e : EStateM ε σ α) := fun _ held => held

theorem Keeps.get : Keeps I (MonadState.get : EStateM ε σ σ) := fun _ held => held

theorem Keeps.modify {change : σ → σ} (kept : ∀ s, I s → I (change s)) : Keeps I (modify change : EStateM ε σ PUnit) :=
  fun s held => kept s held

theorem Keeps.bind (first : Keeps I x) (rest : ∀ a, Keeps I (f a)) : Keeps I (x >>= f) := fun s held =>
  wp_bind.mpr ((first s held).mono (fun a s' held => rest a s' held) fun _ _ held => held)

theorem Keeps.ite {c : Prop} [Decidable c] {x y : EStateM ε σ α} (first : Keeps I x) (second : Keeps I y) :
    Keeps I (if c then x else y) := by
  split
  · exact first
  · exact second

theorem Keeps.destructing {terminate : ε} {leave : EStateM ε σ PUnit} (body : Keeps I x) (left : Keeps I leave) :
    Keeps I (destructing terminate leave x) := fun s held =>
  wp_destructing.mpr ((body s held).mono (fun _ s' held => left s' held) fun _ s' held => left s' held)

theorem get_bind {f : σ → EStateM ε σ β} : (get >>= f) s = f s s := rfl

theorem modify_bind {change : σ → σ} {f : PUnit → EStateM ε σ β} : (modify change >>= f) s = f ⟨⟩ (change s) := rfl

theorem bind_of_ok (outcome : x s = .ok a s') : (x >>= f) s = f a s' := by
  change EStateM.bind x f s = _
  unfold EStateM.bind
  rw [outcome]

theorem bind_of_error (outcome : x s = .error e s') : (x >>= f) s = .error e s' := by
  change EStateM.bind x f s = _
  unfold EStateM.bind
  rw [outcome]

/-- The two outcomes of a sequence, each with the step it comes from. -/
theorem bind_eq_ok : (x >>= f) s = .ok b s' ↔ ∃ a t, x s = .ok a t ∧ f a t = .ok b s' := by
  cases outcome : x s with
  | ok a t => rw [bind_of_ok outcome]; simp
  | error e t => rw [bind_of_error outcome]; simp

theorem bind_eq_error : (x >>= f) s = .error e s' ↔ x s = .error e s' ∨ ∃ a t, x s = .ok a t ∧ f a t = .error e s' := by
  cases outcome : x s with
  | ok a t => rw [bind_of_ok outcome]; simp
  | error e t => rw [bind_of_error outcome]; simp

theorem destructing_pure {leave : EStateM ε σ PUnit} : destructing e leave (pure a : EStateM ε σ α) s =
    match leave s with
    | .ok _ after => .ok a after
    | .error _ after => .error e after := rfl

theorem wp_false_iff : wp x post (fun _ _ => False) s ↔ ∃ a s', x s = .ok a s' ∧ post a s' := by
  unfold wp
  cases outcome : x s with
  | ok a s' =>
    refine ⟨fun held => ⟨a, s', rfl, held⟩, ?_⟩
    rintro ⟨b, t, same, held⟩
    cases same
    exact held
  | error e s' => simp

end Rules

theorem except_bind_eq_ok {x : Except ε α} {f : α → Except ε β} {b : β} :
    (x >>= f) = .ok b ↔ ∃ a, x = .ok a ∧ f a = .ok b := by
  cases x with
  | ok a =>
    change f a = .ok b ↔ _
    simp
  | error e => exact iff_of_false (fun same => nomatch same) (by simp)

theorem except_bind_eq_error {x : Except ε α} {f : α → Except ε β} {e : ε} :
    (x >>= f) = .error e ↔ x = .error e ∨ ∃ a, x = .ok a ∧ f a = .error e := by
  cases x with
  | ok a =>
    change f a = .error e ↔ _
    simp
  | error e' =>
    change Except.error e' = .error e ↔ _
    simp

theorem except_then_eq_ok {x : Except ε PUnit} {y : Except ε β} {b : β} :
    (x >>= fun _ => y) = .ok b ↔ x = .ok ⟨⟩ ∧ y = .ok b := by
  rw [except_bind_eq_ok]
  exact ⟨fun ⟨_, first, second⟩ => ⟨first, second⟩, fun ⟨first, second⟩ => ⟨_, first, second⟩⟩

section Checks
variable {fails : α → Prop} {fault : Nat → α → ε} {checkOne : Nat → α → Except ε Unit}

/-- The checks of some items in order, each with its number, up to the first that fails. -/
def checkFrom (checkOne : Nat → α → Except ε Unit) : (k : Nat) → List α → Except ε Unit
  | _, [] => pure ()
  | k, item :: items => do
    checkOne k item
    checkFrom checkOne (k + 1) items

/-- `run` stops exactly if an item fails, then with the fault of the first one that does, the items
being numbered from `k` on; it leaves the state alone. -/
structure ReportsFirst (run : EStateM ε σ Unit) (s : σ) (k : Nat) (items : List α) (fails : α → Prop)
    (fault : Nat → α → ε) : Prop where
  stops : (∃ e s', run s = .error e s') ↔ ∃ item ∈ items, fails item
  first : ∀ i item, items[i]? = some item → fails item → (∀ j other, j < i → items[j]? = some other → ¬ fails other) →
    run s = .error (fault (k + i) item) s
  passes : (∀ item ∈ items, ¬ fails item) → run s = .ok () s

theorem checkFrom_ok (passes : ∀ k item, checkOne k item = .ok () ↔ ¬ fails item) {k : Nat} {items : List α} :
    checkFrom checkOne k items = .ok () ↔ ∀ item ∈ items, ¬ fails item := by
  induction items generalizing k with
  | nil => exact iff_of_true rfl (by simp)
  | cons item items ih => rw [checkFrom, except_then_eq_ok, passes, ih, List.forall_mem_cons]

theorem checkFrom_first (passes : ∀ k item, checkOne k item = .ok () ↔ ¬ fails item)
    (faulty : ∀ k item, fails item → checkOne k item = .error (fault k item)) {k i : Nat} {items : List α} {item : α}
    (inside : items[i]? = some item) (failed : fails item)
    (before : ∀ j other, j < i → items[j]? = some other → ¬ fails other) :
    checkFrom checkOne k items = .error (fault (k + i) item) := by
  induction items generalizing k i with
  | nil => cases inside
  | cons head items ih =>
    rw [checkFrom, except_bind_eq_error]
    cases i with
    | zero =>
      cases inside
      exact .inl (faulty k item failed)
    | succ i =>
      have passed := (passes k head).mpr (before 0 head (Nat.zero_lt_succ i) rfl)
      have rest := ih (k := k + 1) inside fun j other earlier => before (j + 1) other (Nat.succ_lt_succ earlier)
      rw [Nat.add_assoc, Nat.add_comm 1 i] at rest
      exact .inr ⟨(), passed, rest⟩

/-- A run that does no more than check the items. -/
theorem reportsFirst_of_checks {run : EStateM ε σ Unit} {s : σ} {k : Nat} {items : List α}
    (passes : ∀ k item, checkOne k item = .ok () ↔ ¬ fails item)
    (faulty : ∀ k item, fails item → checkOne k item = .error (fault k item))
    (runs : run s = match checkFrom checkOne k items with
      | .ok _ => .ok () s
      | .error e => .error e s) : ReportsFirst run s k items fails fault where
  stops := by
    have accepted : checkFrom checkOne k items = .ok () ↔ ∀ item ∈ items, ¬ fails item := checkFrom_ok passes
    rw [runs]
    cases result : checkFrom checkOne k items with
    | ok _ =>
      refine iff_of_false (by simp) ?_
      rintro ⟨item, member, failed⟩
      exact accepted.mp result item member failed
    | error e =>
      refine iff_of_true ⟨e, s, rfl⟩ ?_
      by_contra none
      rw [accepted.mpr fun item member failed => none ⟨item, member, failed⟩] at result
      cases result
  first i item inside failed before := by rw [runs, checkFrom_first passes faulty inside failed before]
  passes all := by rw [runs, (checkFrom_ok passes).mpr all]

end Checks

end Machine
