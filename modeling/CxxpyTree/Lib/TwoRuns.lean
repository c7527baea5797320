import CxxpyTree.Lib.Machine

/-! Two runs side by side: of two programs that decide alike, of two programs one of which decides
less strictly, of a program and its copy with steps that only look on or may stop it, and of one program
from two states. -/

namespace Machine

variable {ε σ τ α β γ δ : Type}

/-- From states in `I` and `J`, `y` returns just when `x` does and `P` holds, with related results. -/
structure Lockstep (I : σ → Prop) (J : τ → Prop) (x : EStateM ε σ α) (y : EStateM ε τ β) (R : α → β → Prop)
    (P : Prop) : Prop where
  of_right : ∀ {s t b t'}, I s → J t → y t = .ok b t' → ∃ a s', x s = .ok a s' ∧ R a b ∧ P ∧ I s' ∧ J t'
  of_left : ∀ {s t a s'}, I s → J t → x s = .ok a s' → P → ∃ b t', y t = .ok b t'

def outcome : EStateM.Result ε σ α → Except ε α
  | .ok a _ => .ok a
  | .error e _ => .error e

def finalState : EStateM.Result ε σ α → σ
  | .ok _ s => s
  | .error _ s => s

/-- From every state in `I` the program comes to the same outcome and stays in `I`. -/
def Steady (I : σ → Prop) (x : EStateM ε σ α) : Prop :=
  ∃ answer, ∀ s, I s → outcome (x s) = answer ∧ I (finalState (x s))

/-- Every run of `x` that returns is a run of `y`. -/
def Extends (x y : EStateM ε σ α) : Prop := ∀ s a s', x s = .ok a s' → y s = .ok a s'

section Extends
variable {x y : EStateM ε σ α}

theorem Extends.refl (x : EStateM ε σ α) : Extends x x := fun _ _ _ returned => returned

theorem Extends.bind {f g : α → EStateM ε σ β} (first : Extends x y) (rest : ∀ a, Extends (f a) (g a)) :
    Extends (x >>= f) (y >>= g) := by
  intro s b s' returned
  obtain ⟨a, t, started, returned⟩ := bind_eq_ok.mp returned
  exact bind_eq_ok.mpr ⟨a, t, first s a t started, rest a t b s' returned⟩

theorem Extends.ite {c : Prop} [Decidable c] {x' y' : EStateM ε σ α} (first : Extends x y) (second : Extends x' y') :
    Extends (if c then x else x') (if c then y else y') := by
  by_cases holds : c
  · simpa only [if_pos holds] using first
  · simpa only [if_neg holds] using second

end Extends

/-- Under an invariant that `y` keeps, `x` does the same as `y`. -/
def SameUnder (I : σ → Prop) (x y : EStateM ε σ α) : Prop := ∀ s, I s → x s = y s ∧ wp y (fun _ s' => I s') (fun _ s' => I s') s

namespace SameUnder
variable {I : σ → Prop} {x y x' y' : EStateM ε σ α} {f g : α → EStateM ε σ β}

theorem refl (keeps : Keeps I x) : SameUnder I x x := fun s held => ⟨rfl, keeps s held⟩

theorem bind (first : SameUnder I x y) (rest : ∀ a, SameUnder I (f a) (g a)) : SameUnder I (x >>= f) (y >>= g) := by
  intro s held
  obtain ⟨same, kept⟩ := first s held
  constructor
  · cases outcome : y s with
    | ok a s' =>
      rw [bind_of_ok (same.trans outcome), bind_of_ok outcome]
      exact (rest a s' (kept.of_ok outcome)).1
    | error e s' => rw [bind_of_error (same.trans outcome), bind_of_error outcome]
  · exact wp_bind.mpr (kept.mono (fun a s' held => (rest a s' held).2) fun _ _ held => held)

theorem ite {c : Prop} [Decidable c] (first : SameUnder I x y) (second : SameUnder I x' y') :
    SameUnder I (if c then x else x') (if c then y else y') := by
  split
  · exact first
  · exact second

theorem guarded {enter leave : σ → σ} (entered : ∀ s, I s → I (enter s)) (left : ∀ s, I s → I (leave s))
    (body : SameUnder I x y) : SameUnder I (guarded enter leave x) (guarded enter leave y) := by
  intro s held
  obtain ⟨same, kept⟩ := body (enter s) (entered s held)
  constructor
  · rw [Machine.guarded, same]
    rfl
  · exact wp_guarded.mpr (kept.mono (fun _ s' => left s') fun _ s' => left s')

/-- What only looks on adds nothing. -/
theorem silent {d : EStateM ε σ PUnit} (looks : ∀ s, I s → d s = .ok ⟨⟩ s) (body : SameUnder I x y) :
    SameUnder I (do d; x) y := by
  intro s held
  obtain ⟨same, kept⟩ := body s held
  exact ⟨(bind_of_ok (looks s held)).trans same, kept⟩

end SameUnder

/-- `x` does what `y` does from what `view` leaves of its state, or stops with an error of its own. -/
def Shortens (view : σ → τ) (own : ε → Prop) (x : EStateM ε σ α) (y : EStateM ε τ α) : Prop :=
  ∀ s, wp x (fun a s' => y (view s) = .ok a (view s')) (fun e _ => own e ∨ ∃ t', y (view s) = .error e t') s

namespace Shortens
variable {view : σ → τ} {own : ε → Prop} {x x' : EStateM ε σ α} {y y' : EStateM ε τ α}
variable {f : α → EStateM ε σ β} {g : α → EStateM ε τ β}

theorem pure {a : α} : Shortens view own (Pure.pure a) (Pure.pure a) := fun _ => wp_pure.mpr rfl

theorem throw {e : ε} : Shortens view own (MonadExcept.throw e : EStateM ε σ α) (MonadExcept.throw e) :=
  fun s => .inr ⟨view s, rfl⟩

theorem bind (first : Shortens view own x y) (rest : ∀ a, Shortens view own (f a) (g a)) :
    Shortens view own (x >>= f) (y >>= g) := by
  intro s
  refine wp_bind.mpr ((first s).mono ?_ ?_)
  · intro a s' went
    refine (rest a s').mono ?_ ?_
    · exact fun b s'' went' => (bind_of_ok went).trans went'
    · rintro e s'' (mine | ⟨t', stopped⟩)
      · exact .inl mine
      · exact .inr ⟨t', (bind_of_ok went).trans stopped⟩
  · rintro e s' (mine | ⟨t', stopped⟩)
    · exact .inl mine
    · exact .inr ⟨t', bind_of_error stopped⟩

theorem ite {c : Prop} [Decidable c] (first : Shortens view own x y) (second : Shortens view own x' y') :
    Shortens view own (if c then x else x') (if c then y else y') := by
  split
  · exact first
  · exact second

theorem guarded {enter leave : σ → σ} {enter' leave' : τ → τ} (entered : ∀ s, view (enter s) = enter' (view s))
    (left : ∀ s, view (leave s) = leave' (view s)) (body : Shortens view own x y) :
    Shortens view own (guarded enter leave x) (guarded enter' leave' y) := by
  intro s
  refine wp_guarded.mpr ((body (enter s)).mono ?_ ?_)
  · intro a s' went
    rw [entered] at went
    rw [Machine.guarded, went, left]
  · rintro e s' (mine | ⟨t', stopped⟩)
    · exact .inl mine
    · rw [entered] at stopped
      exact .inr ⟨leave' t', by rw [Machine.guarded, stopped]⟩

end Shortens

section Lockstep
variable {I : σ → Prop} {J : τ → Prop} {x : EStateM ε σ α} {y : EStateM ε τ β} {R : α → β → Prop} {P Q : Prop}

theorem Lockstep.congr (same : P ↔ Q) (steps : Lockstep I J x y R P) : Lockstep I J x y R Q := propext same ▸ steps

theorem Lockstep.imp {S : α → β → Prop} (steps : Lockstep I J x y R P) (weaken : ∀ a b, R a b → S a b) :
    Lockstep I J x y S P where
  of_right inI inJ returned := by
    obtain ⟨a, s', returned', related, rest⟩ := steps.of_right inI inJ returned
    exact ⟨a, s', returned', weaken a _ related, rest⟩
  of_left := steps.of_left

theorem Lockstep.pure {a : α} {b : β} (related : R a b) :
    Lockstep I J (Pure.pure a : EStateM ε σ α) (Pure.pure b : EStateM ε τ β) R True where
  of_right inI inJ returned := by cases returned; exact ⟨a, _, rfl, related, trivial, inI, inJ⟩
  of_left _ _ _ _ := ⟨b, _, rfl⟩

theorem Lockstep.bind {f : α → EStateM ε σ γ} {g : β → EStateM ε τ δ} {S : γ → δ → Prop}
    (first : Lockstep I J x y R P) (rest : ∀ a b, R a b → Lockstep I J (f a) (g b) S Q) :
    Lockstep I J (x >>= f) (y >>= g) S (P ∧ Q) where
  of_right inI inJ returned := by
    obtain ⟨b, t₁, started, returned⟩ := bind_eq_ok.mp returned
    obtain ⟨a, s₁, started', related, holds, inI, inJ⟩ := first.of_right inI inJ started
    obtain ⟨c, s', returned', related', holds', inI, inJ⟩ := (rest a b related).of_right inI inJ returned
    exact ⟨c, s', bind_eq_ok.mpr ⟨a, s₁, started', returned'⟩, related', ⟨holds, holds'⟩, inI, inJ⟩
  of_left inI inJ returned holds := by
    obtain ⟨a, s₁, started, returned⟩ := bind_eq_ok.mp returned
    obtain ⟨b, t₁, started'⟩ := first.of_left inI inJ started holds.1
    -- the left run is the one that the right run has
    obtain ⟨a', s₁', again, related, _, inI, inJ⟩ := first.of_right inI inJ started'
    rw [started] at again
    cases again
    obtain ⟨d, t', returned'⟩ := (rest a b related).of_left inI inJ returned holds.2
    exact ⟨d, t', bind_eq_ok.mpr ⟨b, t₁, started', returned'⟩⟩

/-- The last step of both only shapes the result. -/
theorem Lockstep.map {f : α → γ} {g : β → δ} {S : γ → δ → Prop} (steps : Lockstep I J x y R P)
    (shaped : ∀ a b, R a b → S (f a) (g b)) :
    Lockstep I J (x >>= fun a => Pure.pure (f a)) (y >>= fun b => Pure.pure (g b)) S P :=
  (steps.bind fun a b related => .pure (shaped a b related)).congr (and_iff_left trivial)

end Lockstep

section Steady
variable {I : σ → Prop} {x y : EStateM ε σ α}

theorem Steady.same (steady : Steady I x) {s s' : σ} (inside : I s) (inside' : I s') : outcome (x s) = outcome (x s') := by
  obtain ⟨answer, reached⟩ := steady
  rw [(reached s inside).1, (reached s' inside').1]

theorem Steady.pure {a : α} : Steady I (Pure.pure a : EStateM ε σ α) := ⟨.ok a, fun _ inside => ⟨rfl, inside⟩⟩

theorem Steady.throw {e : ε} : Steady I (MonadExcept.throw e : EStateM ε σ α) :=
  ⟨.error e, fun _ inside => ⟨rfl, inside⟩⟩

theorem Steady.modify {change : σ → σ} (kept : ∀ s, I s → I (change s)) : Steady I (modify change : EStateM ε σ PUnit) :=
  ⟨.ok ⟨⟩, fun s inside => ⟨rfl, kept s inside⟩⟩

theorem Steady.ite {c : Prop} [Decidable c] (first : Steady I x) (second : Steady I y) : Steady I (if c then x else y) := by
  split
  · exact first
  · exact second

theorem Steady.bind {f : α → EStateM ε σ β} (first : Steady I x) (rest : ∀ a, Steady I (f a)) : Steady I (x >>= f) := by
  obtain ⟨answer, reached⟩ := first
  choose answers reached' using rest
  refine ⟨answer >>= answers, fun s inside => ?_⟩
  obtain ⟨same, inside'⟩ := reached s inside
  cases step : x s with
  | error e s' =>
    rw [step] at same inside'
    rw [bind_of_error step, ← same]
    exact ⟨rfl, inside'⟩
  | ok a s' =>
    rw [step] at same inside'
    rw [bind_of_ok step, ← same]
    exact reached' a s' inside'

end Steady

end Machine
