import CxxpyTree.Lib.TwoRuns

/-! A program that is given what it asks for up to a limit, against the same program that is given everything. -/

namespace Machine

variable {ε σ α β μ : Type}

/-- What the limit lets through it has let through from the start. -/
def Receding (within : List μ → Prop) : Prop := ∀ front later, within (front ++ later) → within front

/-- `y` does what `x` does if that stays within the limit, and stops as broke if it does not. -/
structure Limited (asked : σ → List μ) (within : List μ → Prop) (broke : ε → Prop) (x y : EStateM ε σ α) : Prop where
  grows : ∀ s, asked s <+: asked (finalState (x s))
  inside : ∀ s, within (asked (finalState (x s))) → y s = x s
  beyond : ∀ s, within (asked s) → ¬ within (asked (finalState (x s))) → ∃ e s', y s = .error e s' ∧ broke e

namespace Limited
variable {asked : σ → List μ} {within : List μ → Prop} {broke : ε → Prop} {x y x' y' : EStateM ε σ α}
variable {f g : α → EStateM ε σ β}

theorem asked_same (still : ∀ list, Keeps (fun s => asked s = list) x) (s : σ) : asked (finalState (x s)) = asked s := by
  have kept : wp x (fun _ s' => asked s' = asked s) (fun _ s' => asked s' = asked s) s := still (asked s) s rfl
  cases ran : x s with
  | ok a s' => exact kept.of_ok ran
  | error e s' => exact kept.of_error ran

/-- A program that asks for nothing. -/
theorem quiet (still : ∀ list, Keeps (fun s => asked s = list) x) : Limited asked within broke x x := by
  have same := asked_same still
  constructor
  · exact fun s => ⟨[], by rw [same, List.append_nil]⟩
  · exact fun s _ => rfl
  · intro s held outside
    rw [same] at outside
    exact absurd held outside

theorem ite {c : Prop} [Decidable c] (first : Limited asked within broke x y) (second : Limited asked within broke x' y') :
    Limited asked within broke (if c then x else x') (if c then y else y') := by
  split
  · exact first
  · exact second

theorem bind (recedes : Receding within) (first : Limited asked within broke x y)
    (rest : ∀ a, Limited asked within broke (f a) (g a)) : Limited asked within broke (x >>= f) (y >>= g) where
  grows s := by
    have before := first.grows s
    cases ran : x s with
    | error e s' =>
      rw [ran] at before
      rwa [bind_of_error ran]
    | ok a s' =>
      rw [ran] at before
      rw [bind_of_ok ran]
      exact before.trans ((rest a).grows s')
  inside s held := by
    cases ran : x s with
    | error e s' =>
      rw [bind_of_error ran] at held ⊢
      exact bind_of_error ((first.inside s (by rwa [ran])).trans ran)
    | ok a s' =>
      rw [bind_of_ok ran] at held ⊢
      obtain ⟨later, longer⟩ := (rest a).grows s'
      have early : within (asked s') := recedes _ later (longer ▸ held)
      have started : y s = .ok a s' := (first.inside s (by rw [ran]; exact early)).trans ran
      rw [bind_of_ok started]
      exact (rest a).inside s' held
  beyond s held outside := by
    cases ran : x s with
    | error e s' =>
      rw [bind_of_error ran] at outside
      obtain ⟨e', s'', stopped, broke⟩ := first.beyond s held (by rwa [ran])
      exact ⟨e', s'', bind_of_error stopped, broke⟩
    | ok a s' =>
      rw [bind_of_ok ran] at outside
      by_cases early : within (asked s')
      · have started : y s = .ok a s' := (first.inside s (by rw [ran]; exact early)).trans ran
        rw [bind_of_ok started]
        exact (rest a).beyond s' early outside
      · obtain ⟨e', s'', stopped, broke⟩ := first.beyond s held (by rwa [ran])
        exact ⟨e', s'', bind_of_error stopped, broke⟩

/-- A destructor that asks for nothing does not count. -/
theorem asked_destructing {terminate : ε} {leave : EStateM ε σ PUnit} (still : ∀ list, Keeps (fun s => asked s = list) leave)
    (x : EStateM ε σ α) (s : σ) : asked (finalState (Machine.destructing terminate leave x s)) = asked (finalState (x s)) := by
  have closes := asked_same still
  unfold Machine.destructing
  cases x s with
  | ok a s' =>
    have closed := closes s'
    cases ran : leave s' <;> (rw [ran] at closed; simp only [ran]; exact closed)
  | error e s' =>
    have closed := closes s'
    cases ran : leave s' <;> (rw [ran] at closed; simp only [ran]; exact closed)

/-- A scope whose destructor asks for nothing and does not fail where `y` is broke. -/
theorem destructing {terminate : ε} {init leave : EStateM ε σ PUnit}
    (quietly : ∀ list, Keeps (fun s => asked s = list) init) (still : ∀ list, Keeps (fun s => asked s = list) leave)
    (body : Limited asked within broke x y)
    (left : ∀ s s' e s'', init s = .ok ⟨⟩ s' → y s' = .error e s'' → broke e → ∃ after, leave s'' = .ok ⟨⟩ after) :
    Limited asked within broke (init >>= fun _ => Machine.destructing terminate leave x)
      (init >>= fun _ => Machine.destructing terminate leave y) := by
  have same := asked_same quietly
  have closed := @asked_destructing _ _ _ _ asked terminate leave still x
  constructor
  · intro s
    have before := same s
    cases ran : init s with
    | error e s' =>
      rw [ran] at before
      rw [bind_of_error ran, ← before]
      exact List.prefix_rfl
    | ok _ s' =>
      rw [ran] at before
      rw [bind_of_ok ran, closed, ← before]
      exact body.grows s'
  · intro s inside
    cases ran : init s with
    | error e s' => rw [bind_of_error ran, bind_of_error ran]
    | ok _ s' =>
      rw [bind_of_ok ran, closed] at inside
      rw [bind_of_ok ran, bind_of_ok ran, Machine.destructing, body.inside s' inside]
      rfl
  · intro s held outside
    have before := same s
    cases ran : init s with
    | error e s' =>
      rw [ran] at before
      rw [bind_of_error ran] at outside
      exact absurd (before ▸ held) outside
    | ok _ s' =>
      rw [ran] at before
      rw [bind_of_ok ran, closed] at outside
      change asked s' = asked s at before
      obtain ⟨e, s'', stopped, broke⟩ := body.beyond s' (by rwa [before]) outside
      obtain ⟨after, popped⟩ := left s s' e s'' ran stopped broke
      exact ⟨e, after, by rw [bind_of_ok ran, Machine.destructing, stopped]; simp only [popped], broke⟩

end Limited

end Machine
