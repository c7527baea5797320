import CxxpyTree.Lib.TwoRuns

/-! Amortized bounds: a run pays from a potential of its states and from credits that it is given. -/

namespace Machine

variable {ε σ α β : Type}

/-- The potential and the credits pay for all that `x` does, and `gain` is left over for its result. -/
def Pays (potential : σ → Nat) (credit : Nat) (x : EStateM ε σ α) (gain : α → Nat) : Prop :=
  ∀ s, wp x (fun a s' => potential s' + gain a ≤ potential s + credit) (fun _ s' => potential s' ≤ potential s + credit) s

namespace Pays
variable {potential : σ → Nat} {credit credit' : Nat} {x y : EStateM ε σ α} {f : α → EStateM ε σ β}
variable {gain gain' : α → Nat} {gain₂ : β → Nat}

theorem pure {a : α} (enough : gain a ≤ credit) : Pays potential credit (Pure.pure a : EStateM ε σ α) gain :=
  fun s => wp_pure.mpr (Nat.add_le_add_left enough (potential s))

theorem throw {e : ε} : Pays potential credit (MonadExcept.throw e : EStateM ε σ α) gain :=
  fun s => wp_throw.mpr (Nat.le_add_right (potential s) credit)

/-- What the first part does not need goes on to the second. -/
theorem bind (first : Pays potential credit x gain) (enough : credit ≤ credit')
    (rest : ∀ a, Pays potential (gain a + (credit' - credit)) (f a) gain₂) : Pays potential credit' (x >>= f) gain₂ := by
  refine fun s => wp_bind.mpr ((first s).mono ?_ ?_)
  · intro a s' paid
    refine (rest a s').mono ?_ ?_
    · intro b s'' paid'
      omega
    · intro _ s'' paid'
      omega
  · intro _ s' paid
    omega

/-- A first part that needs no credits. -/
theorem free_bind (first : Pays potential 0 x gain) (rest : ∀ a, Pays potential (gain a + credit) (f a) gain₂) :
    Pays potential credit (x >>= f) gain₂ := first.bind credit.zero_le rest

theorem ite {c : Prop} [Decidable c] (first : c → Pays potential credit x gain) (second : ¬ c → Pays potential credit y gain) :
    Pays potential credit (if c then x else y) gain := by
  split
  next holds => exact first holds
  next fails => exact second fails

theorem guarded {enter leave : σ → σ} (entered : ∀ s, potential (enter s) = potential s)
    (left : ∀ s, potential (leave s) = potential s) (body : Pays potential credit x gain) :
    Pays potential credit (guarded enter leave x) gain := by
  intro s
  refine wp_guarded.mpr ((body (enter s)).mono ?_ ?_)
  · intro a s' paid
    rwa [left, ← entered s]
  · intro _ s' paid
    rwa [left, ← entered s]

/-- Where `x` ends, the potential is at most what was put in. -/
theorem finalState_le (pays : Pays potential credit x gain) (s : σ) : potential (finalState (x s)) ≤ potential s + credit := by
  have paid := pays s
  unfold wp at paid
  cases ran : x s with
  | ok a s' =>
    rw [ran] at paid
    exact Nat.le_trans (Nat.le_add_right _ _) paid
  | error e s' =>
    rw [ran] at paid
    exact paid

end Pays

end Machine
