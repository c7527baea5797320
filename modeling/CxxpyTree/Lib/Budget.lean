import CxxpyTree.Lib.TwoRuns
import Mathlib.Data.List.Forall2
import Mathlib.Order.Defs.PartialOrder

/-! A program that pays for what it keeps against the same program that keeps for nothing: it does the same
until its funds run out. -/

namespace Machine

/-- How a program over `τ` that pays is seen from one over `σ` that does not. A world says what both keep;
it only grows. -/
structure Account (W σ τ κ μ ε ε' : Type) where
  rel : W → σ → τ → Prop
  kept : σ → List μ
  funds : τ → κ
  pay : κ → μ → Option κ
  broke : ε' → Prop
  embed : ε → ε'

variable {W σ τ κ μ ε ε' α β γ δ : Type}

/-- A run of `x` forgets nothing that is kept. -/
class Grows (kept : σ → List μ) (x : EStateM ε σ α) : Prop where
  keeps : ∀ front, Keeps (fun s => front <+: kept s) x

section Grows
variable {kept : σ → List μ} {x y : EStateM ε σ α} {f : α → EStateM ε σ β}

instance {a : α} : Grows kept (pure a : EStateM ε σ α) := ⟨fun _ => Keeps.pure⟩

instance [first : Grows kept x] [rest : ∀ a, Grows kept (f a)] : Grows kept (x >>= f) :=
  ⟨fun front => (first.keeps front).bind fun a => (rest a).keeps front⟩

instance {c : Prop} [Decidable c] [first : Grows kept x] [second : Grows kept y] : Grows kept (if c then x else y) :=
  ⟨fun front => (first.keeps front).ite (second.keeps front)⟩

theorem Grows.guarded {enter leave : σ → σ} (entered : ∀ s, kept (enter s) = kept s) (left : ∀ s, kept (leave s) = kept s)
    [body : Grows kept x] : Grows kept (guarded enter leave x) := by
  have stays : ∀ {front : List μ} (s : σ), front <+: kept s → front <+: kept (leave s) := fun s held => (left s).symm ▸ held
  refine ⟨fun front s held => wp_guarded.mpr ?_⟩
  have inside : front <+: kept (enter s) := (entered s).symm ▸ held
  exact (body.keeps front (enter s) inside).mono (fun _ s' => stays s') fun _ s' => stays s'

theorem Grows.run (kept : σ → List μ) (x : EStateM ε σ α) [grows : Grows kept x] (s : σ) :
    ∃ new, kept (finalState (x s)) = kept s ++ new := by
  have longer := grows.keeps (kept s) s List.prefix_rfl
  cases ran : x s with
  | ok a s' =>
    obtain ⟨new, same⟩ := longer.of_ok ran
    exact ⟨new, same.symm⟩
  | error e s' =>
    obtain ⟨new, same⟩ := longer.of_error ran
    exact ⟨new, same.symm⟩

end Grows

/-- With enough funds for what `x` comes to keep, `y` ends as `x` does, in related states and with what is left
of the funds. With less it stops as broke. -/
structure Affords [Preorder W] (A : Account W σ τ κ μ ε ε') (w : W) (x : EStateM ε σ α) (y : EStateM ε' τ β)
    (R : W → α → β → Prop) : Prop where
  short : ∀ {s t new}, A.rel w s t → A.kept (finalState (x s)) = A.kept s ++ new → new.foldlM A.pay (A.funds t) = none →
    ∃ e t', y t = .error e t' ∧ A.broke e
  paid : ∀ {s t new rest}, A.rel w s t → A.kept (finalState (x s)) = A.kept s ++ new →
    new.foldlM A.pay (A.funds t) = some rest → wp x
      (fun a s' => ∃ w' b t', w ≤ w' ∧ y t = .ok b t' ∧ A.rel w' s' t' ∧ A.funds t' = rest ∧ R w' a b)
      (fun e _ => ∃ t', y t = .error (A.embed e) t') s

namespace Affords
variable [Preorder W] {A : Account W σ τ κ μ ε ε'} {w : W} {x : EStateM ε σ α} {y : EStateM ε' τ β}
variable {R : W → α → β → Prop} {S : W → γ → δ → Prop} {f : α → EStateM ε σ γ} {g : β → EStateM ε' τ δ}

/-- A step that keeps nothing and costs nothing. -/
theorem quiet (keeps : ∀ s, A.kept (finalState (x s)) = A.kept s)
    (same : ∀ s t, A.rel w s t → wp x (fun a s' => ∃ b t', y t = .ok b t' ∧ A.rel w s' t' ∧ A.funds t' = A.funds t ∧ R w a b)
      (fun e _ => ∃ t', y t = .error (A.embed e) t') s) : Affords A w x y R where
  short {s t new} _ kept paid := by
    rw [keeps, List.self_eq_append_right] at kept
    subst kept
    cases paid
  paid {s t new rest} start kept paid := by
    rw [keeps, List.self_eq_append_right] at kept
    subst kept
    cases paid
    refine (same s t start).mono ?_ fun _ _ stopped => stopped
    rintro a s' ⟨b, t', ran, ends, left, related⟩
    exact ⟨w, b, t', le_rfl, ran, ends, left, related⟩

theorem pure {a : α} {b : β} (related : R w a b) : Affords A w (Pure.pure a) (Pure.pure b) R :=
  quiet (fun _ => rfl) fun _ t start => wp_pure.mpr ⟨b, t, rfl, start, rfl, related⟩

theorem imp {T : W → α → β → Prop} (affords : Affords A w x y R) (weaken : ∀ w' a b, w ≤ w' → R w' a b → T w' a b) :
    Affords A w x y T where
  short := affords.short
  paid start kept paid := by
    refine (affords.paid start kept paid).mono ?_ fun _ _ stopped => stopped
    rintro a s' ⟨w', b, t', le, ran, ends, left, related⟩
    exact ⟨w', b, t', le, ran, ends, left, weaken w' a b le related⟩

theorem ite {c : Prop} [Decidable c] {x' : EStateM ε σ α} {y' : EStateM ε' τ β} (first : c → Affords A w x y R)
    (second : ¬ c → Affords A w x' y' R) : Affords A w (if c then x else x') (if c then y else y') R := by
  split
  next holds => exact first holds
  next fails => exact second fails

omit [Preorder W] in
/-- What the whole keeps is what its first part keeps and then the rest. -/
theorem kept_split {s s' : σ} {a : α} {new : List μ} [Grows A.kept x] [Grows A.kept (f a)]
    (ran : x s = .ok a s') (kept : A.kept (finalState ((x >>= f) s)) = A.kept s ++ new) :
    ∃ early late, new = early ++ late ∧ A.kept (finalState (x s)) = A.kept s ++ early ∧
      A.kept (finalState (f a s')) = A.kept s' ++ late := by
  obtain ⟨early, first⟩ := Grows.run A.kept x s
  obtain ⟨late, rest⟩ := Grows.run A.kept (f a) s'
  refine ⟨early, late, ?_, first, rest⟩
  rw [ran] at first
  rw [bind_of_ok ran, rest, show A.kept s' = _ from first, List.append_assoc] at kept
  exact (List.append_cancel_left kept).symm

theorem bind [Grows A.kept x] [∀ a, Grows A.kept (f a)] (first : Affords A w x y R)
    (rest : ∀ w' a b, w ≤ w' → R w' a b → Affords A w' (f a) (g b) S) : Affords A w (x >>= f) (y >>= g) S where
  short {s t new} start kept unpaid := by
    cases ran : x s with
    | error e s' =>
      rw [bind_of_error ran] at kept
      obtain ⟨e', t', stopped, broke⟩ := first.short start (by rw [ran]; exact kept) unpaid
      exact ⟨e', t', bind_of_error stopped, broke⟩
    | ok a s' =>
      obtain ⟨early, late, rfl, kept, kept'⟩ := kept_split ran kept
      rw [List.foldlM_append] at unpaid
      cases paid : early.foldlM A.pay (A.funds t) with
      | none =>
        obtain ⟨e', t', stopped, broke⟩ := first.short start kept paid
        exact ⟨e', t', bind_of_error stopped, broke⟩
      | some left =>
        obtain ⟨w', b, t', le, went, middle, rfl, related⟩ := (first.paid start kept paid).of_ok ran
        rw [paid] at unpaid
        obtain ⟨e', t'', stopped, broke⟩ := (rest w' a b le related).short middle kept' unpaid
        exact ⟨e', t'', (bind_of_ok went).trans stopped, broke⟩
  paid {s t new left'} start kept paid' := by
    cases ran : x s with
    | error e s' =>
      have stops : (x >>= f) s = .error e s' := bind_of_error ran
      rw [stops] at kept
      obtain ⟨t', stopped⟩ := (first.paid start (by rw [ran]; exact kept) paid').of_error ran
      exact (wp_of_error stops).mpr ⟨t', bind_of_error stopped⟩
    | ok a s' =>
      obtain ⟨early, late, rfl, kept, kept'⟩ := kept_split ran kept
      rw [List.foldlM_append] at paid'
      cases paid : early.foldlM A.pay (A.funds t) with
      | none => rw [paid] at paid'; cases paid'
      | some left =>
        obtain ⟨w', b, t', le, went, middle, rfl, related⟩ := (first.paid start kept paid).of_ok ran
        rw [paid] at paid'
        refine wp_bind.mpr ((wp_of_ok ran).mpr (((rest w' a b le related).paid middle kept' paid').mono ?_ ?_))
        · rintro c s'' ⟨w'', d, t'', le', went', ends, funds', related'⟩
          exact ⟨w'', d, t'', le_trans le le', (bind_of_ok went).trans went', ends, funds', related'⟩
        · rintro e s'' ⟨t'', stopped⟩
          exact ⟨t'', (bind_of_ok went).trans stopped⟩

/-- A scope that neither keeps nor pays when it is entered and when it is left. -/
theorem guarded {enter leave : σ → σ} {enter' leave' : τ → τ} (entered : ∀ {w s t}, A.rel w s t → A.rel w (enter s) (enter' t))
    (left : ∀ {w s t}, A.rel w s t → A.rel w (leave s) (leave' t)) (kept : ∀ s, A.kept (enter s) = A.kept s)
    (kept' : ∀ s, A.kept (leave s) = A.kept s) (funds : ∀ t, A.funds (enter' t) = A.funds t)
    (funds' : ∀ t, A.funds (leave' t) = A.funds t) (body : Affords A w x y R) :
    Affords A w (guarded enter leave x) (guarded enter' leave' y) R := by
  have ends : ∀ s, A.kept (finalState (Machine.guarded enter leave x s)) = A.kept (finalState (x (enter s))) := by
    intro s
    unfold Machine.guarded
    cases x (enter s) <;> exact kept' _
  constructor
  · intro s t new start keeps unpaid
    rw [ends, ← kept s] at keeps
    rw [← funds] at unpaid
    obtain ⟨e, t', stopped, broke⟩ := body.short (entered start) keeps unpaid
    exact ⟨e, leave' t', by rw [Machine.guarded, stopped], broke⟩
  · intro s t new rest start keeps paid
    rw [ends, ← kept s] at keeps
    rw [← funds] at paid
    refine wp_guarded.mpr ((body.paid (entered start) keeps paid).mono ?_ ?_)
    · rintro a s' ⟨w', b, t', le, ran, ends, rest, related⟩
      exact ⟨w', b, leave' t', le, by rw [Machine.guarded, ran], left ends, (funds' t').trans rest, related⟩
    · rintro e s' ⟨t', stopped⟩
      exact ⟨leave' t', by rw [Machine.guarded, stopped]⟩

end Affords

end Machine
