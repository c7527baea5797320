import Mathlib.Order.MinMax

/-! Documents of bracketed text in two layouts: on one line, and with every item on a line of its own that
is indented by the brackets still open. The second differs from the first in layout only, and its lines show
the nesting exactly as far as the indentation counts right. -/

namespace Document

universe u v

section Lines
variable {α : Type u} {σ : Type v} (isEnd : α → Bool) (after : σ → α → σ) (ok : σ → List α → Prop)

/-- Behind every end of a line, `ok` holds of the state that the text before it leaves and of what follows. -/
def EachLine (state : σ) (text : List α) : Prop :=
  ∀ before c rest, text = before ++ c :: rest → isEnd c = true → ok (before.foldl after state) rest

variable {isEnd after ok} {state : σ} {c : α} {w text : List α}

theorem eachLine_nil : EachLine isEnd after ok state [] := by
  intro before c rest split
  simp at split

theorem eachLine_cons : EachLine isEnd after ok state (c :: text) ↔
    (isEnd c = true → ok state text) ∧ EachLine isEnd after ok (after state c) text := by
  constructor
  · intro lines
    refine ⟨fun ends => lines [] c text rfl ends, ?_⟩
    rintro before d rest rfl ends
    exact lines (c :: before) d rest rfl ends
  · rintro ⟨first, lines⟩ before d rest split ends
    cases before with
    | nil =>
      obtain ⟨rfl, rfl⟩ := List.cons.inj split
      exact first ends
    | cons e before =>
      obtain ⟨rfl, rfl⟩ := List.cons.inj split
      exact lines before d rest rfl ends

theorem eachLine_append (inside : ∀ c ∈ w, isEnd c = false) :
    EachLine isEnd after ok state (w ++ text) ↔ EachLine isEnd after ok (w.foldl after state) text := by
  induction w generalizing state with
  | nil => rfl
  | cons c w ih =>
    obtain ⟨first, later⟩ := List.forall_mem_cons.mp inside
    simp only [List.cons_append, eachLine_cons, first, Bool.false_eq_true, false_implies, true_and,
      List.foldl_cons, ih later]

end Lines

/-- The signs a layout is made of and those that it counts. -/
structure Signs (α : Type u) where
  newline : α
  space : α
  isEnd : α → Bool
  isSpace : α → Bool
  /-- What stays when the layout is deleted. -/
  kept : α → Bool
  opens : α → Bool
  /-- The opening bracket that a closing bracket closes. -/
  partner : α → Option α
  newline_isEnd : isEnd newline = true
  newline_neutral : opens newline = false ∧ partner newline = none
  newline_layout : kept newline = false
  space_inside : isEnd space = false
  space_isSpace : isSpace space = true
  space_neutral : opens space = false ∧ partner space = none
  space_layout : kept space = false

namespace Signs
variable {α : Type u} [DecidableEq α] (signs : Signs α)

/-- The brackets that are open after a character, the innermost first. -/
def after (stack : List α) (c : α) : List α :=
  if signs.opens c then c :: stack
  else match stack with
    | [] => []
    | top :: below => if signs.partner c = some top then below else top :: below

def leading (text : List α) : Nat := (text.takeWhile signs.isSpace).length

/-- The first character of a line that is no space closes an open bracket. -/
def closes (stack text : List α) : Bool :=
  match text.dropWhile signs.isSpace with
  | [] => false
  | c :: _ => (signs.after stack c).length < stack.length

/-- A line is indented by `unit` spaces for every open bracket, the one that it closes at once apart. -/
def Indented (unit : Nat) (stack text : List α) : Prop :=
  signs.leading text = unit * (stack.length - if signs.closes stack text then 1 else 0)

/-- Every line but the first is indented by the brackets that are open where it begins. -/
def Nested (unit : Nat) (stack text : List α) : Prop :=
  EachLine signs.isEnd signs.after (signs.Indented unit) stack text

/-- A character that neither the lines nor the brackets nor the layout depend on. -/
structure Neutral (c : α) : Prop where
  kept : signs.kept c = true
  inside : signs.isEnd c = false
  opens : signs.opens c = false
  partner : signs.partner c = none

/-- A text on one line that closes the brackets it opens and no others, and has no layout in it. -/
structure Level (w : List α) : Prop where
  kept : ∀ c ∈ w, signs.kept c = true
  inside : ∀ c ∈ w, signs.isEnd c = false
  closed : ∀ stack, w.foldl signs.after stack = stack

structure Pair (opening closing : α) : Prop where
  opens : signs.opens opening = true
  closes : signs.opens closing = false
  partner : signs.partner closing = some opening
  opening_inside : signs.isEnd opening = false
  closing_inside : signs.isEnd closing = false
  solid : signs.isSpace closing = false
  opening_kept : signs.kept opening = true
  closing_kept : signs.kept closing = true

variable {signs}

theorem after_neutral {c : α} (opens : signs.opens c = false) (partner : signs.partner c = none) (stack : List α) :
    signs.after stack c = stack := by
  cases stack <;> simp [after, opens, partner]

theorem Pair.after_opening {o c : α} (pair : signs.Pair o c) (stack : List α) : signs.after stack o = o :: stack :=
  if_pos pair.opens

theorem Pair.after_closing {o c : α} (pair : signs.Pair o c) (stack : List α) :
    signs.after (o :: stack) c = stack := by
  simp [after, pair.closes, pair.partner]

theorem Level.of_neutral {w : List α} (neutral : ∀ c ∈ w, signs.Neutral c) : signs.Level w where
  kept := fun c member => (neutral c member).kept
  inside := fun c member => (neutral c member).inside
  closed := by
    intro stack
    induction w with
    | nil => rfl
    | cons c w ih =>
      obtain ⟨first, later⟩ := List.forall_mem_cons.mp neutral
      rw [List.foldl_cons, after_neutral first.opens first.partner, ih later]

theorem Level.enclosed {o c : α} {w : List α} (pair : signs.Pair o c) (level : signs.Level w) :
    signs.Level (o :: (w ++ [c])) where
  kept := by simpa [pair.opening_kept, pair.closing_kept, or_imp, forall_and] using level.kept
  inside := by simpa [pair.opening_inside, pair.closing_inside, or_imp, forall_and] using level.inside
  closed := by
    intro stack
    rw [List.foldl_cons, pair.after_opening, List.foldl_append, level.closed, List.foldl_cons, pair.after_closing,
      List.foldl_nil]

/-- A line that begins with `n` spaces and a character that is none. -/
theorem indented_iff {unit n : Nat} {c : α} {stack text : List α} (solid : signs.isSpace c = false) :
    signs.Indented unit stack (List.replicate n signs.space ++ c :: text) ↔
      n = unit * (stack.length - if (signs.after stack c).length < stack.length then 1 else 0) := by
  have spaces : (List.replicate n signs.space).takeWhile signs.isSpace = List.replicate n signs.space := by
    simp [signs.space_isSpace]
  have leading : signs.leading (List.replicate n signs.space ++ c :: text) = n := by
    simp [Signs.leading, List.takeWhile_append, spaces, solid]
  have behind : (List.replicate n signs.space ++ c :: text).dropWhile signs.isSpace = c :: text := by
    rw [List.dropWhile_append_of_pos (by simp [signs.space_isSpace]), List.dropWhile_cons_of_neg (by simp [solid])]
  simp only [Signs.Indented, leading, Signs.closes, behind, decide_eq_true_eq]

theorem nested_level {unit : Nat} {w stack text : List α} (level : signs.Level w) :
    signs.Nested unit stack (w ++ text) ↔ signs.Nested unit stack text := by
  rw [Nested, eachLine_append level.inside, level.closed]
  rfl

/-- A new line with `n` spaces in front of its first character. -/
theorem nested_line {c : α} (solid : signs.isSpace c = false) (unit n : Nat) (stack text : List α) :
    signs.Nested unit stack (signs.newline :: (List.replicate n signs.space ++ c :: text)) ↔
      n = unit * (stack.length - if (signs.after stack c).length < stack.length then 1 else 0) ∧
      signs.Nested unit stack (c :: text) := by
  have inside : ∀ d ∈ List.replicate n signs.space, signs.isEnd d = false := by
    intro d member
    rw [List.eq_of_mem_replicate member, signs.space_inside]
  have closed : (List.replicate n signs.space).foldl signs.after stack = stack := by
    induction n with
    | zero => rfl
    | succ n ih =>
      rw [List.replicate_succ, List.foldl_cons, after_neutral signs.space_neutral.1 signs.space_neutral.2, ih]
      exact fun d member => inside d (List.mem_cons_of_mem _ member)
  rw [Nested, eachLine_cons, after_neutral signs.newline_neutral.1 signs.newline_neutral.2, eachLine_append inside,
    closed]
  simp only [signs.newline_isEnd, true_implies, indented_iff solid]
  rfl

/-- A line that begins with what closes no bracket is indented by all that are open. -/
theorem nested_item {w : List α} (flat : signs.Level w)
    (begins : ∃ c tail, w = c :: tail ∧ signs.isSpace c = false ∧ signs.partner c = none) (unit n : Nat)
    (stack text : List α) :
    signs.Nested unit stack (signs.newline :: (List.replicate n signs.space ++ (w ++ text))) ↔
      n = unit * stack.length ∧ signs.Nested unit stack text := by
  obtain ⟨c, tail, rfl, solid, free⟩ := begins
  have stays : ¬ (signs.after stack c).length < stack.length := by
    by_cases opens : signs.opens c = true
    · simp [Signs.after, opens]
    · rw [after_neutral (by simpa using opens) free]
      exact Nat.lt_irrefl _
  have line := nested_line solid unit n stack (tail ++ text)
  rw [if_neg stays, Nat.sub_zero] at line
  exact line.trans (and_congr_right' (nested_level flat))

theorem Pair.nested_opening {o c : α} (pair : signs.Pair o c) (unit : Nat) (stack text : List α) :
    signs.Nested unit stack (o :: text) ↔ signs.Nested unit (o :: stack) text := by
  rw [Nested, eachLine_cons, pair.opening_inside, pair.after_opening]
  simp [Nested]

/-- The bracket is still open where its own line begins, so that line stands one level further out. -/
theorem Pair.nested_closing {o c : α} (pair : signs.Pair o c) (unit n : Nat) (stack text : List α) :
    signs.Nested unit (o :: stack) (signs.newline :: (List.replicate n signs.space ++ c :: text)) ↔
      n = unit * stack.length ∧ signs.Nested unit stack text := by
  have closes : (signs.after (o :: stack) c).length < (o :: stack).length := by
    rw [pair.after_closing, List.length_cons]
    exact Nat.lt_succ_self _
  have around : signs.Nested unit (o :: stack) (c :: text) ↔ signs.Nested unit stack text := by
    rw [Nested, eachLine_cons, pair.closing_inside, pair.after_closing]
    simp [Nested]
  rw [nested_line pair.solid, if_pos closes, List.length_cons, Nat.add_sub_cancel, around]

end Signs

/-- A text in brackets and lines. -/
inductive Doc (α : Type u) where
  | text (w : List α)
  | blank
  | line (w : List α)
  | append (first second : Doc α)
  /-- The body is one level deeper, and the closing bracket on a line of its own. -/
  | nest (opening closing : α) (body : Doc α)

namespace Doc
variable {α : Type u} [DecidableEq α] (signs : Signs α)

/-- The text of a document with layout, or without. `indent` is the number of spaces for a level. -/
def render (indent : Nat → Nat) (wide : Bool) (level : Nat) : Doc α → List α
  | text w => w
  | blank => if wide then [signs.space] else []
  | line w => (if wide then signs.newline :: List.replicate (indent level) signs.space else []) ++ w
  | append first second => render indent wide level first ++ render indent wide level second
  | nest opening closing body =>
    opening :: (render indent wide (level + 1) body ++
      ((if wide then signs.newline :: List.replicate (indent level) signs.space else []) ++ [closing]))

/-- The number of levels that have lines. -/
def height : Doc α → Nat
  | text _ => 0
  | blank => 0
  | line _ => 1
  | append first second => max first.height second.height
  | nest _ _ body => body.height + 1

/-- A document whose brackets are written as such and whose lines begin with neither a space nor a closing
bracket. -/
def Fits : Doc α → Prop
  | text w => signs.Level w
  | blank => True
  | line w => signs.Level w ∧ ∃ c tail, w = c :: tail ∧ signs.isSpace c = false ∧ signs.partner c = none
  | append first second => first.Fits ∧ second.Fits
  | nest opening closing body => signs.Pair opening closing ∧ body.Fits

variable {signs} {indent : Nat → Nat}

/-- Without its layout, the wide text is the text on one line. -/
theorem filter_render {doc : Doc α} (fits : doc.Fits signs) (level level' : Nat) :
    (doc.render signs indent true level).filter signs.kept = doc.render signs indent false level' := by
  have spaces (n : Nat) : (signs.newline :: List.replicate n signs.space).filter signs.kept = [] := by
    simp [signs.newline_layout, signs.space_layout]
  induction doc generalizing level level' with
  | text w => exact List.filter_eq_self.mpr fits.kept
  | blank => simp [render, signs.space_layout]
  | line w =>
    simp only [render, if_true, List.filter_append, spaces, List.nil_append, Bool.false_eq_true, if_false]
    exact List.filter_eq_self.mpr fits.1.kept
  | append first second ihFirst ihSecond =>
    rw [render, render, List.filter_append, ihFirst fits.1 level level', ihSecond fits.2 level level']
  | nest o c body ih =>
    simp only [render, if_true, List.filter_cons, List.filter_append, fits.1.opening_kept, fits.1.closing_kept, spaces,
      ih fits.2 (level + 1) (level' + 1), List.filter_nil, List.nil_append, Bool.false_eq_true, if_false]

/-- The lines of a document show its nesting if and only if the indentation is right on all its levels. -/
theorem nested_render {unit : Nat} {doc : Doc α} (fits : doc.Fits signs) {stack : List α} {level : Nat}
    (opened : stack.length = level) {rest : List α} :
    signs.Nested unit stack (doc.render signs indent true level ++ rest) ↔
      (∀ i < doc.height, indent (level + i) = unit * (level + i)) ∧ signs.Nested unit stack rest := by
  induction doc generalizing stack level rest with
  | text w => simpa [render, height] using Signs.nested_level fits
  | blank =>
    have inside : ∀ d ∈ [signs.space], signs.isEnd d = false := by simp [signs.space_inside]
    have closed := Signs.after_neutral signs.space_neutral.1 signs.space_neutral.2 stack
    simp [render, height, Signs.Nested, eachLine_cons, signs.space_inside, closed]
  | line w =>
    have line := Signs.nested_item fits.1 fits.2 unit (indent level) stack rest
    rw [opened] at line
    simpa [render, height] using line
  | append first second ihFirst ihSecond =>
    have levels : (∀ i < (append first second).height, indent (level + i) = unit * (level + i)) ↔
        (∀ i < first.height, indent (level + i) = unit * (level + i)) ∧
          ∀ i < second.height, indent (level + i) = unit * (level + i) := by
      simp only [height, lt_max_iff, or_imp, forall_and]
    rw [render, List.append_assoc, ihFirst fits.1 opened, ihSecond fits.2 opened, levels, and_assoc]
  | nest o c body ih =>
    obtain ⟨pair, fits⟩ := fits
    have deeper : (o :: stack).length = level + 1 := by rw [List.length_cons, opened]
    have levels : (∀ i < (nest o c body).height, indent (level + i) = unit * (level + i)) ↔
        indent level = unit * level ∧ ∀ i < body.height, indent (level + 1 + i) = unit * (level + 1 + i) := by
      rw [height, Nat.forall_lt_succ_left, Nat.add_zero]
      simp only [Nat.add_assoc, Nat.add_comm 1]
    simp only [render, if_true, List.cons_append, List.append_assoc, List.nil_append]
    rw [pair.nested_opening, ih fits deeper, pair.nested_closing, opened, levels, and_assoc]
    exact and_left_comm

end Doc

end Document
