import CxxpyTree.Lib.Machine

/-! A loop over items that stops at the first one that fails, and what it puts out on the way. -/

namespace CxxpyTree.Batch
open Machine

variable {α β γ ε ε' σ ρ τ : Type}

/-- A run over the items from number `k` on: how many of them were good, the failure that it stopped at, if there was
one, and the output. -/
inductive Runs (good : Nat → α → List β → Prop) (bad : Nat → α → ε → List β → Prop) :
    Nat → List α → Nat → Option ε → List β → Prop where
  | done {k} : Runs good bad k [] 0 none []
  | next {k a items n failure out rest} (here : good k a out) (later : Runs good bad (k + 1) items n failure rest) :
    Runs good bad k (a :: items) (n + 1) failure (out ++ rest)
  | stop {k a items e out} (here : bad k a e out) : Runs good bad k (a :: items) 0 (some e) out

section Runs
variable {good : Nat → α → List β → Prop} {bad : Nat → α → ε → List β → Prop} {k n : Nat} {items : List α}
  {failure : Option ε} {out : List β}

/-- Where no item is both good and bad, a run comes to the end of the items just when all are good. -/
theorem Runs.succeeds_iff (runs : Runs good bad k items n failure out)
    (apart : ∀ k a out e out', good k a out → ¬ bad k a e out') :
    failure = none ↔ ∀ i a, items[i]? = some a → ∃ out, good (k + i) a out := by
  induction runs with
  | done => simp
  | @next k a items n failure out rest here _ ih =>
    rw [ih]
    constructor
    · intro all i a' there
      cases i with
      | zero =>
        cases there
        exact ⟨out, here⟩
      | succ i =>
        obtain ⟨out', good'⟩ := all i a' there
        exact ⟨out', by rwa [Nat.add_assoc, Nat.add_comm 1 i] at good'⟩
    · intro all i a' there
      obtain ⟨out', good'⟩ := all (i + 1) a' there
      exact ⟨out', by rwa [Nat.add_assoc, Nat.add_comm 1 i]⟩
  | @stop k a items e out here =>
    constructor
    · intro none
      cases none
    · intro all
      obtain ⟨out', good'⟩ := all 0 a rfl
      exact absurd here (apart _ _ _ _ _ good')

/-- A run that does not stop goes through all items. -/
theorem Runs.length (runs : Runs good bad k items n none out) : n = items.length := by
  generalize stopped : (none : Option ε) = failure at runs
  induction runs with
  | done => rfl
  | next _ _ ih => rw [ih stopped, List.length_cons]
  | stop => cases stopped

end Runs

/-! The loop itself, over a state with an output. -/

section Loop
variable (output : σ → List β) (I J : Nat → σ → Prop) (good : Nat → α → List β → Prop) (bad : Nat → α → ε → List β → Prop)

/-- `x` goes through the items from number `k` on; `I` holds between them, and `J` where it stops, with the number of
the good items behind it. -/
def Follows (k : Nat) (items : List α) (Q : ρ → Prop) (x : EStateM ε σ ρ) (s : σ) : Prop :=
  wp x (fun r s' => Q r ∧ ∃ n out, Runs good bad k items n none out ∧ output s' = output s ++ out ∧ I (k + n) s')
    (fun e s' => ∃ n out, Runs good bad k items n (some e) out ∧ output s' = output s ++ out ∧ J (k + n) s') s

variable {output I J good bad} {k : Nat} {a : α} {items : List α} {Q : ρ → Prop} {s : σ}

theorem Follows.nil {r : ρ} (holds : Q r) (held : I k s) : Follows output I J good bad k [] Q (pure r) s :=
  ⟨holds, 0, [], .done, (List.append_nil _).symm, held⟩

theorem Follows.stop {e : ε} (fails : bad k a e []) (left : J k s) :
    Follows output I J good bad k (a :: items) Q (throw e : EStateM ε σ ρ) s :=
  ⟨0, [], .stop fails, (List.append_nil _).symm, left⟩

/-- The loop goes on behind a good item. -/
theorem Follows.cons {x : EStateM ε σ τ} {f : τ → EStateM ε σ ρ}
    (step : wp x (fun t s' => ∃ out, good k a out ∧ output s' = output s ++ out ∧
        Follows output I J good bad (k + 1) items Q (f t) s')
      (fun e s' => ∃ out, bad k a e out ∧ output s' = output s ++ out ∧ J k s') s) :
    Follows output I J good bad k (a :: items) Q (x >>= f) s := by
  refine wp_bind.mpr (step.mono ?_ ?_)
  · rintro t s₁ ⟨out, here, written, follows⟩
    have shift : ∀ n, k + 1 + n = k + (n + 1) := fun n => by omega
    refine wp.mono follows ?_ ?_
    · rintro r s₂ ⟨holds, n, rest, runs, more, held⟩
      exact ⟨holds, n + 1, out ++ rest, .next here runs, by rw [more, written, List.append_assoc], shift n ▸ held⟩
    · rintro e s₂ ⟨n, rest, runs, more, left⟩
      exact ⟨n + 1, out ++ rest, .next here runs, by rw [more, written, List.append_assoc], shift n ▸ left⟩
  · rintro e s₁ ⟨out, here, written, left⟩
    exact ⟨0, out, .stop here, written, left⟩

end Loop

/-! A call that is made again on what it has left. -/

section Calls
variable (call : EStateM ε σ ρ) (s : σ)

/-- What `n` calls leave if all of them return. -/
def left : Nat → Option σ
  | 0 => some s
  | n + 1 => do
    let s' ← left n
    match call s' with
    | .ok _ s'' => some s''
    | .error .. => none

/-- The call behind `n` others ends so. -/
def Nth (n : Nat) (result : EStateM.Result ε σ ρ) : Prop := ∃ s', left call s n = some s' ∧ call s' = result

variable {call s} {n : Nat}

theorem Nth.unique {result result' : EStateM.Result ε σ ρ} (nth : Nth call s n result) (nth' : Nth call s n result') :
    result = result' := by
  obtain ⟨s₁, before, rfl⟩ := nth
  obtain ⟨s₂, before', rfl⟩ := nth'
  cases before.symm.trans before'
  rfl

theorem left_succ {s' s'' : σ} {r : ρ} (before : left call s n = some s') (returned : call s' = .ok r s'') :
    left call s (n + 1) = some s'' := by
  rw [left, before, Option.bind_eq_bind, Option.bind_some, returned]

/-- What the calls behind the first one leave. -/
theorem left_of_first {s s' : σ} {r : ρ} (returned : call s = .ok r s') : left call s (n + 1) = left call s' n := by
  induction n with
  | zero => exact left_succ rfl returned
  | succ n ih => rw [left, ih, left]

end Calls

end CxxpyTree.Batch
