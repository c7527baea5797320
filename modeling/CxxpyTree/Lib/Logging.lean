import Mathlib.Data.List.Forall2
import CxxpyTree.Lib.Machine

/-! Programs that write a log beside what they do: what it takes for the log to change nothing, and what
a run has written when it returns and when it stops. -/

namespace Machine

variable {ε σ ω μ α β : Type}

/-- A step that writes nothing. -/
def quiet (x : EStateM ε σ α) : EStateM ε (σ × List ω) α := fun s =>
  match x s.1 with
  | .ok a s' => .ok a (s', s.2)
  | .error e s' => .error e (s', s.2)

def writeLog (entry : ω) : EStateM ε (σ × List ω) PUnit := modify fun s => (s.1, s.2 ++ [entry])

/-- From the states in `I`, `y` does what `x` does. If it returns it has written one entry for each of
`marks`, in their order; if it stops, the entries of the marks up to some point. -/
def Writes (I : σ → Prop) (R : μ → ω → Prop) (marks : List μ) (x : EStateM ε σ α) (y : EStateM ε (σ × List ω) α) : Prop :=
  ∀ s log, I s → wp x
    (fun a s' => I s' ∧ ∃ out, y (s, log) = .ok a (s', log ++ out) ∧ List.Forall₂ R marks out)
    (fun e s' => I s' ∧ ∃ out, y (s, log) = .error e (s', log ++ out) ∧ ∃ front, front <+: marks ∧ List.Forall₂ R front out) s

namespace Writes
variable {I : σ → Prop} {R : μ → ω → Prop} {marks more : List μ} {x : EStateM ε σ α} {y : EStateM ε (σ × List ω) α}
variable {f : α → EStateM ε σ β} {g : α → EStateM ε (σ × List ω) β}

theorem quiet (keeps : Keeps I x) : Writes I R [] x (quiet x) := by
  intro s log held
  have kept := keeps s held
  unfold wp at kept ⊢
  cases outcome : x s with
  | ok a s' =>
    rw [outcome] at kept
    exact ⟨kept, [], by simp [Machine.quiet, outcome], .nil⟩
  | error e s' =>
    rw [outcome] at kept
    exact ⟨kept, [], by simp [Machine.quiet, outcome], [], List.prefix_rfl, .nil⟩

theorem pure {a : α} : Writes I R [] (Pure.pure a : EStateM ε σ α) (Pure.pure a) := fun _ log held =>
  ⟨held, [], by rw [List.append_nil]; rfl, .nil⟩

theorem bind (first : Writes I R marks x y) (rest : ∀ a, Writes I R more (f a) (g a)) :
    Writes I R (marks ++ more) (x >>= f) (y >>= g) := by
  intro s log held
  refine wp_bind.mpr ((first s log held).mono ?_ ?_)
  · rintro a s' ⟨held, out, ran, written⟩
    refine (rest a s' (log ++ out) held).mono ?_ ?_
    · rintro b s'' ⟨held, out', ran', written'⟩
      refine ⟨held, out ++ out', ?_, List.rel_append written written'⟩
      rw [bind_of_ok ran, ran', List.append_assoc]
    · rintro e s'' ⟨held, out', ran', front, before, written'⟩
      refine ⟨held, out ++ out', ?_, marks ++ front, (List.prefix_append_right_inj marks).mpr before,
        List.rel_append written written'⟩
      rw [bind_of_ok ran, ran', List.append_assoc]
  · rintro e s' ⟨held, out, ran, front, before, written⟩
    exact ⟨held, out, bind_of_error ran, front, before.trans (List.prefix_append marks more), written⟩

/-- The result of a step is written before the steps that follow. -/
theorem logged {m : μ} {entry : α → ω}
    (steps : ∀ s, I s → wp x (fun a s' => R m (entry a) ∧ I s') (fun _ s' => I s') s) (goesOn : ∀ a, Keeps I (f a)) :
    Writes I R [m] (x >>= f) (Machine.quiet x >>= fun a => do
      writeLog (entry a)
      Machine.quiet (f a)) := by
  intro s log held
  have stepped := steps s held
  refine wp_bind.mpr ?_
  unfold wp at stepped ⊢
  cases outcome : x s with
  | error e s' =>
    rw [outcome] at stepped
    refine ⟨stepped, [], ?_, [], List.nil_prefix, .nil⟩
    have failed : Machine.quiet (ω := ω) x (s, log) = .error e (s', log) := by simp [Machine.quiet, outcome]
    rw [bind_of_error failed, List.append_nil]
  | ok a s' =>
    rw [outcome] at stepped
    obtain ⟨tells, held⟩ := stepped
    have ran : Machine.quiet (ω := ω) x (s, log) = .ok a (s', log) := by simp [Machine.quiet, outcome]
    -- what follows writes nothing more
    refine (Writes.quiet (R := R) (goesOn a) s' (log ++ [entry a]) held).mono ?_ ?_
    · rintro b s'' ⟨held, out, ran', written⟩
      cases written
      rw [List.append_nil] at ran'
      exact ⟨held, [entry a], (bind_of_ok ran).trans ran', .cons tells .nil⟩
    · rintro e s'' ⟨held, out, ran', front, before, written⟩
      obtain rfl := List.prefix_nil.mp before
      cases written
      rw [List.append_nil] at ran'
      exact ⟨held, [entry a], (bind_of_ok ran).trans ran', [m], List.prefix_rfl, .cons tells .nil⟩

end Writes

end Machine
