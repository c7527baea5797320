import Mathlib.Tactic.Common

/-! Readers of text, and what they read back: the reader of a value takes its text off the front of any text that
may stand behind it. -/

variable {α β : Type}

abbrev TextReader (α : Type) := StateT (List Char) Option α

namespace TextReader

/-- `r` reads `w` as `a` in front of any text that is `ok`. -/
def Reads (ok : List Char → Prop) (r : TextReader α) (w : List Char) (a : α) : Prop :=
  ∀ rest, ok rest → r (w ++ rest) = some (a, rest)

/-- `r` fails on `w` in front of any text that is `ok`. -/
def Refuses (ok : List Char → Prop) (r : TextReader α) (w : List Char) : Prop := ∀ rest, ok rest → r (w ++ rest) = none

def anyText (_ : List Char) : Prop := True

/-- A text that starts with a character that `stop` accepts, or an empty one. -/
def startsWith (stop : Char → Bool) (text : List Char) : Prop := ∀ c ∈ text.head?, stop c = true

def expect (w : List Char) : TextReader Unit := fun text => if w <+: text then some ((), text.drop w.length) else none

/-- The text in front of the first character that `stop` accepts. -/
def upTo (stop : Char → Bool) : TextReader (List Char) := fun text => some (text.takeWhile (!stop ·), text.dropWhile (!stop ·))

def orElse (r q : TextReader α) : TextReader α := fun text => r text <|> q text

/-- One or more values with `sep` between them, `fuel` at most. -/
def sepBy (sep : List Char) (r : TextReader α) : (fuel : Nat) → TextReader (List α)
  | 0 => fun _ => none
  | fuel + 1 => do
    let a ← r
    let more ← orElse (do expect sep; sepBy sep r fuel) (pure [])
    return a :: more

/-- Values up to the end of the text, `fuel` at most. -/
def all (r : TextReader α) : (fuel : Nat) → List Char → Option (List α)
  | _, [] => some []
  | 0, _ :: _ => none
  | fuel + 1, c :: text => do
    let (a, rest) ← r (c :: text)
    let more ← all r fuel rest
    return a :: more

section Rules
variable {ok ok' : List Char → Prop} {r q : TextReader α} {f : α → TextReader β} {w w' sep : List Char} {a : α} {b : β}
  {stop : Char → Bool}

theorem Reads.pure : Reads ok (pure a) [] a := fun _ _ => rfl

theorem Reads.imp (reads : Reads ok r w a) (more : ∀ rest, ok' rest → ok rest) : Reads ok' r w a :=
  fun rest behind => reads rest (more rest behind)

/-- The second text stands behind the first. -/
theorem Reads.bind (first : Reads ok' r w a) (second : Reads ok (f a) w' b) (fits : ∀ rest, ok rest → ok' (w' ++ rest)) :
    Reads ok (r >>= f) (w ++ w') b := by
  intro rest behind
  change (r (w ++ w' ++ rest) >>= fun p => f p.1 p.2) = _
  rw [List.append_assoc, first _ (fits rest behind)]
  exact second rest behind

theorem Reads.map {g : α → β} (reads : Reads ok r w a) : Reads ok (do let a ← r; return g a) w (g a) := by
  have both : Reads ok (r >>= fun a => Pure.pure (g a)) (w ++ []) (g a) := reads.bind Reads.pure fun _ behind => behind
  rwa [List.append_nil] at both

theorem expect_reads : Reads ok (expect w) w () := by
  intro rest _
  rw [expect, if_pos (List.prefix_append w rest), List.drop_left]

/-- A text that is expected is read and forgotten. -/
theorem Reads.behind {g : Unit → TextReader β} (second : Reads ok (g ()) w' b) :
    Reads ok (expect w >>= g) (w ++ w') b :=
  (expect_reads : Reads anyText (expect w) w ()).bind second fun _ _ => trivial

theorem upTo_reads (free : ∀ c ∈ w, stop c = false) : Reads (startsWith stop) (upTo stop) w w := by
  intro rest ends
  have inside : ∀ c ∈ w, (!stop c) = true := fun c member => by rw [free c member]; rfl
  have behind : rest.takeWhile (!stop ·) = [] ∧ rest.dropWhile (!stop ·) = rest := by
    cases rest with
    | nil => exact ⟨rfl, rfl⟩
    | cons c rest =>
      have ended : (!stop c) = false := by rw [ends c rfl]; rfl
      exact ⟨List.takeWhile_cons_of_neg (by simp [ended]), List.dropWhile_cons_of_neg (by simp [ended])⟩
  rw [upTo, List.takeWhile_append_of_pos inside, List.dropWhile_append_of_pos inside, behind.1, behind.2, List.append_nil]

theorem Reads.orElse_left (reads : Reads ok r w a) : Reads ok (orElse r q) w a := by
  intro rest behind
  rw [orElse, reads rest behind]
  rfl

theorem Reads.orElse_right (refuses : Refuses ok r w) (reads : Reads ok q w a) : Reads ok (orElse r q) w a := by
  intro rest behind
  rw [orElse, refuses rest behind, reads rest behind]
  rfl

theorem Refuses.bind (refuses : Refuses ok r w) : Refuses ok (r >>= f) w := by
  intro rest behind
  change (r (w ++ rest) >>= fun p => f p.1 p.2) = none
  rw [refuses rest behind]
  rfl

/-- The text goes on with another character than the one expected there. -/
theorem expect_refuses {u v : List Char} {c : Char} (other : ∀ rest, ok rest → (w ++ rest).head? ≠ some c) :
    Refuses ok (expect (u ++ c :: v)) (u ++ w) := by
  intro rest behind
  refine if_neg fun front => other rest behind ?_
  obtain ⟨tail, same⟩ := front
  rw [List.append_assoc, List.append_assoc] at same
  rw [← List.append_cancel_left same]
  rfl

def sepText (sep : List Char) (print : α → List Char) : List α → List Char
  | [] => []
  | [a] => print a
  | a :: b :: list => print a ++ (sep ++ sepText sep print (b :: list))

theorem length_le_sepText {print : α → List Char} {list : List α} (filled : ∀ a ∈ list, print a ≠ []) :
    list.length ≤ (sepText sep print list).length := by
  induction list with
  | nil => exact Nat.le_refl 0
  | cons a list ih =>
    obtain ⟨first, later⟩ := List.forall_mem_cons.mp filled
    have here := List.length_pos_iff.mpr first
    cases list with
    | nil => exact here
    | cons b list =>
      have others := ih later
      rw [sepText, List.length_append, List.length_append, List.length_cons]
      omega

theorem length_le_flatMap {print : α → List Char} {list : List α} (filled : ∀ a ∈ list, print a ≠ []) :
    list.length ≤ (list.flatMap print).length := by
  induction list with
  | nil => exact Nat.le_refl 0
  | cons a list ih =>
    obtain ⟨first, later⟩ := List.forall_mem_cons.mp filled
    have here := List.length_pos_iff.mpr first
    have others := ih later
    rw [List.flatMap_cons, List.length_append, List.length_cons]
    omega

theorem length_le_of_mem {print : α → List Char} {list : List α} {a : α} (member : a ∈ list) :
    (print a).length ≤ (list.flatMap print).length := by
  obtain ⟨before, behind, rfl⟩ := List.append_of_mem member
  rw [List.flatMap_append, List.flatMap_cons, List.length_append, List.length_append]
  omega

/-- Every value is read in front of `sep` and of what may stand behind the last. -/
theorem sepBy_reads {print : α → List Char} {c : Char} {fuel : Nat} {list : List α}
    (each : ∀ a ∈ list, Reads (fun rest => (∃ text, rest = c :: sep ++ text) ∨ ok rest) r (print a) a)
    (some_ : list ≠ []) (enough : list.length ≤ fuel) (other : ∀ rest, ok rest → rest.head? ≠ some c) :
    Reads ok (sepBy (c :: sep) r fuel) (sepText (c :: sep) print list) list := by
  induction list generalizing fuel with
  | nil => exact absurd rfl some_
  | cons a list ih =>
    obtain ⟨fuel, rfl⟩ : ∃ n, fuel = n + 1 := Nat.exists_eq_add_of_le' (Nat.le_trans (Nat.succ_pos _) enough)
    obtain ⟨here, others⟩ := List.forall_mem_cons.mp each
    rw [sepBy]
    cases list with
    | nil =>
      have stops : Reads ok (orElse (do expect (c :: sep); sepBy (c :: sep) r fuel) (Pure.pure [])) [] [] :=
        .orElse_right (Refuses.bind (expect_refuses (u := []) (w := []) other)) Reads.pure
      have both : Reads ok (r >>= fun a => do
          let more ← orElse (do expect (c :: sep); sepBy (c :: sep) r fuel) (Pure.pure [])
          return a :: more) (print a ++ []) [a] :=
        here.bind (stops.map (g := fun more => a :: more)) fun rest behind => .inr behind
      rwa [List.append_nil] at both
    | cons b list =>
      have later := ih others (List.cons_ne_nil b list) (Nat.le_of_succ_le_succ enough)
      have goes : Reads ok (orElse (do expect (c :: sep); sepBy (c :: sep) r fuel) (Pure.pure []))
          (c :: sep ++ sepText (c :: sep) print (b :: list)) (b :: list) :=
        Reads.orElse_left (Reads.behind later)
      exact here.bind (goes.map (g := fun more => a :: more)) fun rest behind => .inl ⟨_, List.append_assoc ..⟩

/-- The values stand one behind the other up to the end of the text. -/
theorem all_reads {print : α → List Char} {fuel : Nat} {list : List α} (each : ∀ a ∈ list, Reads anyText r (print a) a)
    (filled : ∀ a ∈ list, print a ≠ []) (enough : list.length ≤ fuel) :
    all r fuel (list.flatMap print) = some list := by
  induction list generalizing fuel with
  | nil => cases fuel <;> rfl
  | cons a list ih =>
    obtain ⟨fuel, rfl⟩ : ∃ n, fuel = n + 1 := Nat.exists_eq_add_of_le' (Nat.le_trans (Nat.succ_pos _) enough)
    obtain ⟨here, others⟩ := List.forall_mem_cons.mp each
    obtain ⟨first, later⟩ := List.forall_mem_cons.mp filled
    have read := here (list.flatMap print) trivial
    rw [List.flatMap_cons]
    cases text : print a ++ list.flatMap print with
    | nil => exact absurd (List.append_eq_nil_iff.mp text).1 first
    | cons c rest =>
      rw [text] at read
      rw [all, read]
      change (all r fuel (list.flatMap print) >>= fun more => some (a :: more)) = _
      rw [ih others later (Nat.le_of_succ_le_succ enough)]
      rfl

end Rules

end TextReader
