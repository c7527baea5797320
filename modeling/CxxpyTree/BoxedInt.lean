import CxxpyTree.CheckLimits

/-! `box_t` of std-ext.hpp, an integer in a class of its own, run beside a plain variable of the
same type. -/

namespace CxxpyTree

namespace IntType

theorem emod_holds {T : IntType} (unsigned : T.signed = false) (x : Int) : T.Holds (x % 2 ^ T.bits) := by
  have positive : (0 : Int) < 2 ^ T.bits := Int.pow_pos (by decide)
  have width : T.width = T.bits := by simp [IntType.width, unsigned]
  refine ⟨?_, ?_⟩
  · rw [min_unsigned unsigned]
    exact Int.emod_nonneg x positive.ne'
  · rw [max, width]
    exact Int.le_sub_one_of_lt (Int.emod_lt_of_pos x positive)

theorem cast_holds {T : IntType} (positive : 0 < T.bits) (x : Int) : T.Holds (T.cast x) := by
  cases signed : T.signed with
  | false =>
    rw [cast, if_neg (by simp [signed])]
    exact emod_holds signed x
  | true =>
    have doubled : ((2 ^ T.bits : Nat) : Int) = 2 * 2 ^ T.width := by
      rw [show T.bits = T.width + 1 by simp only [width, signed, if_true]; omega, Nat.pow_succ]
      push_cast
      omega
    have lower := Int.le_bmod (x := x) (Nat.two_pow_pos T.bits)
    have upper := Int.bmod_lt (x := x) (Nat.two_pow_pos T.bits)
    rw [cast, if_pos signed]
    simp only [Holds, min, max, signed, if_true]
    omega

end IntType

structure StdInt extends IntType where
  standard : toIntType.Standard

structure Num (T : StdInt) where
  val : Int
  held : T.Holds val

/-- How a run ends early: the `SYS_ASSERT` of a debugging build, or a signed result that its type does not
hold. -/
inductive Fault
  | assertion
  | overflow
  deriving DecidableEq, Repr

namespace Num
variable {T V : StdInt}

@[ext] theorem ext {x y : Num T} (same : x.val = y.val) : x = y := by
  cases x
  cases y
  simp_all

/-- The result of an operator of type `T`, exact or modulo `2 ^ bits`. -/
def result (T : StdInt) (x : Int) : Except Fault (Num T) :=
  if signed : T.signed then
    if held : T.Holds x then .ok ⟨x, held⟩ else .error .overflow
  else .ok ⟨x % 2 ^ T.bits, IntType.emod_holds (by simpa using signed) x⟩

def add (x y : Num T) : Except Fault (Num T) := result T (x.val + y.val)
def sub (x y : Num T) : Except Fault (Num T) := result T (x.val - y.val)
/-- `v ++` and `v --` as what they leave in `v`. -/
def succ (x : Num T) : Except Fault (Num T) := result T (x.val + 1)
def pred (x : Num T) : Except Fault (Num T) := result T (x.val - 1)

def integerCast (T : StdInt) (v : Num V) : Except Fault (Num T) :=
  if checkLimits T.toIntType V.toIntType v.val then
    .ok ⟨T.cast v.val, IntType.cast_holds T.standard.positive v.val⟩
  else .error .assertion

end Num

structure Box (T : StdInt) where
  v : Num T

namespace Box
variable {T V : StdInt}

def of (T : StdInt) (a : Num V) : Except Fault (Box T) := do return ⟨← Num.integerCast T a⟩

def subAssign (b : Box T) (a : Num V) : Except Fault (Box T) := do
  let a ← Num.integerCast T a
  return ⟨← b.v.sub a⟩

def addAssign (b : Box T) (a : Num V) : Except Fault (Box T) := do
  let a ← Num.integerCast T a
  return ⟨← b.v.add a⟩

def sub (b : Box T) (a : Num V) : Except Fault (Box T) := do (← of T b.v).subAssign a
def add (b : Box T) (a : Num V) : Except Fault (Box T) := do (← of T b.v).addAssign a

def subBox (b : Box T) (a : Box V) : Except Fault (Box T) := b.sub a.v
def addBox (b : Box T) (a : Box V) : Except Fault (Box T) := b.add a.v
def subAssignBox (b : Box T) (a : Box V) : Except Fault (Box T) := b.subAssign a.v
def addAssignBox (b : Box T) (a : Box V) : Except Fault (Box T) := b.addAssign a.v

def preDec (b : Box T) : Except Fault (Box T) := do return ⟨← b.v.pred⟩
-- The source decrements here too.
def preInc (b : Box T) : Except Fault (Box T) := do return ⟨← b.v.pred⟩

/-- What the expression yields, and the box it leaves. -/
def postDec (b : Box T) : Except Fault (Box T × Box T) := do
  let r ← of T b.v
  return (r, ⟨← b.v.pred⟩)

def postInc (b : Box T) : Except Fault (Box T × Box T) := do
  let r ← of T b.v
  return (r, ⟨← b.v.succ⟩)

end Box

/-- The right operand: an integer, a box, or the variable that is operated on. -/
inductive Argument
  | integer {V : StdInt} (a : Num V)
  | box {V : StdInt} (a : Box V)
  | itself

inductive BoxOp
  | add (a : Argument)
  | sub (a : Argument)
  | addAssign (a : Argument)
  | subAssign (a : Argument)
  | preInc
  | preDec
  | postInc
  | postDec

section Runs
variable {T : StdInt}

namespace Argument

/-- The operator member an argument selects. -/
def apply (b : Box T) (onInteger : ∀ {V : StdInt}, Num V → α) (onBox : ∀ {V : StdInt}, Box V → α) : Argument → α
  | integer a => onInteger a
  | box a => onBox a
  | itself => onBox b

/-- The number an argument stands for, next to a variable of value `x`. -/
def value (x : Num T) : Argument → Int
  | integer a => a.val
  | box a => a.v.val
  | itself => x.val

/-- `integer_cast<T>` accepts the argument. -/
def Accepted (T : StdInt) : Argument → Prop
  | @integer V a => checkLimits T.toIntType V.toIntType a.val = true
  | @box V a => checkLimits T.toIntType V.toIntType a.v.val = true
  | itself => True

end Argument

namespace BoxOp

/-- The value of the expression, and the box after it. -/
def onBox (b : Box T) : BoxOp → Except Fault (Num T × Box T)
  | add a => do
    let r ← a.apply b b.add b.addBox
    return (r.v, b)
  | sub a => do
    let r ← a.apply b b.sub b.subBox
    return (r.v, b)
  | addAssign a => do
    let b ← a.apply b b.addAssign b.addAssignBox
    return (b.v, b)
  | subAssign a => do
    let b ← a.apply b b.subAssign b.subAssignBox
    return (b.v, b)
  | preInc => do
    let b ← b.preInc
    return (b.v, b)
  | preDec => do
    let b ← b.preDec
    return (b.v, b)
  | postInc => do
    let (r, b) ← b.postInc
    return (r.v, b)
  | postDec => do
    let (r, b) ← b.postDec
    return (r.v, b)

/-- The value of the same expression over a variable of type `T`, and the variable after it. -/
def onPlain (x : Num T) : BoxOp → Except Fault (Num T × Num T)
  | add a => do return (← Num.result T (x.val + a.value x), x)
  | sub a => do return (← Num.result T (x.val - a.value x), x)
  | addAssign a => do
    let x ← Num.result T (x.val + a.value x)
    return (x, x)
  | subAssign a => do
    let x ← Num.result T (x.val - a.value x)
    return (x, x)
  | preInc => do
    let x ← Num.result T (x.val + 1)
    return (x, x)
  | preDec => do
    let x ← Num.result T (x.val - 1)
    return (x, x)
  | postInc => do return (x, ← Num.result T (x.val + 1))
  | postDec => do return (x, ← Num.result T (x.val - 1))

def Accepted (T : StdInt) : BoxOp → Prop
  | add a | sub a | addAssign a | subAssign a => a.Accepted T
  | preInc | preDec | postInc | postDec => True

end BoxOp

/-- The values of the expressions, each with the value of the variable after it. -/
def runBoxOps (step : σ → BoxOp → Except Fault (Num T × σ)) (value : σ → Num T) :
    σ → List BoxOp → Except Fault (List (Num T × Num T))
  | _, [] => return []
  | s, op :: ops => do
    let (r, s) ← step s op
    return (r, value s) :: (← runBoxOps step value s ops)

def boxedRun (start : Num T) (ops : List BoxOp) : Except Fault (List (Num T × Num T)) := do
  let b ← Box.of T start
  runBoxOps BoxOp.onBox Box.v b ops

def plainRun (start : Num T) (ops : List BoxOp) : Except Fault (List (Num T × Num T)) :=
  runBoxOps BoxOp.onPlain id start ops

namespace Num

theorem integerCast_accepted {V : StdInt} {a : Num V} (accepted : checkLimits T.toIntType V.toIntType a.val = true) :
    ∃ b : Num T, integerCast T a = .ok b ∧ b.val = a.val := by
  have held := (checkLimits_iff_holds T.standard V.standard a.held).mp accepted
  exact ⟨_, if_pos accepted, held.cast T.standard.positive⟩

@[simp] theorem integerCast_self (a : Num T) : integerCast T a = .ok a := by
  have accepted : checkLimits T.toIntType T.toIntType a.val = true :=
    (checkLimits_iff_holds T.standard T.standard a.held).mpr a.held
  obtain ⟨b, cast, same⟩ := integerCast_accepted accepted
  rw [cast, ext same]

theorem result_signed (signed : T.signed = true) {x : Int} {y : Num T} (made : result T x = .ok y) : y.val = x := by
  rw [result, dif_pos signed] at made
  split at made
  · obtain rfl := Except.ok.inj made
    rfl
  · cases made

theorem result_unsigned (unsigned : T.signed = false) {x : Int} {y : Num T} (made : result T x = .ok y) :
    y.val = x % 2 ^ T.bits := by
  rw [result, dif_neg (by simp [unsigned])] at made
  obtain rfl := Except.ok.inj made
  rfl

/-- A step up and a step down never agree: a type has more than two values. -/
theorem succ_ne_pred {x : Num T} {y : Num T} (up : result T (x.val + 1) = .ok y) : result T (x.val - 1) ≠ .ok y := by
  intro down
  cases signed : T.signed with
  | true =>
    have := (result_signed signed up).symm.trans (result_signed signed down)
    omega
  | false =>
    have same := (result_unsigned signed up).symm.trans (result_unsigned signed down)
    have many := Nat.le_of_dvd T.standard.positive T.standard.octets
    have large : (2 : Int) ^ 8 ≤ 2 ^ T.bits := pow_le_pow_right₀ (by decide) many
    have divides := Int.emod_eq_emod_iff_emod_sub_eq_zero.mp same
    rw [show x.val + 1 - (x.val - 1) = 2 by omega, Int.emod_eq_of_lt (by decide) (by omega)] at divides
    exact absurd divides (by decide)

end Num

namespace Box

@[simp] theorem of_self (x : Num T) : of T x = .ok ⟨x⟩ := by simp [of, pure, Except.pure, bind, Except.bind]

theorem addAssign_accepted {V : StdInt} (x : Num T) {a : Num V}
    (accepted : checkLimits T.toIntType V.toIntType a.val = true) :
    (⟨x⟩ : Box T).addAssign a = Box.mk <$> Num.result T (x.val + a.val) := by
  obtain ⟨b, cast, same⟩ := Num.integerCast_accepted accepted
  rw [addAssign, cast, ← same]
  rfl

theorem subAssign_accepted {V : StdInt} (x : Num T) {a : Num V}
    (accepted : checkLimits T.toIntType V.toIntType a.val = true) :
    (⟨x⟩ : Box T).subAssign a = Box.mk <$> Num.result T (x.val - a.val) := by
  obtain ⟨b, cast, same⟩ := Num.integerCast_accepted accepted
  rw [subAssign, cast, ← same]
  rfl

theorem add_accepted {V : StdInt} (x : Num T) {a : Num V}
    (accepted : checkLimits T.toIntType V.toIntType a.val = true) :
    (⟨x⟩ : Box T).add a = Box.mk <$> Num.result T (x.val + a.val) := by
  rw [add, of_self, ← addAssign_accepted x accepted]
  rfl

theorem sub_accepted {V : StdInt} (x : Num T) {a : Num V}
    (accepted : checkLimits T.toIntType V.toIntType a.val = true) :
    (⟨x⟩ : Box T).sub a = Box.mk <$> Num.result T (x.val - a.val) := by
  rw [sub, of_self, ← subAssign_accepted x accepted]
  rfl

end Box

/-- A member that treats integers and boxes alike treats its own variable so too. -/
theorem Argument.apply_eq {x : Num T} {a : Argument} (result : Int → Except Fault (Num T)) (accepted : a.Accepted T)
    {onInteger : ∀ {V : StdInt}, Num V → Except Fault (Box T)} {onBox : ∀ {V : StdInt}, Box V → Except Fault (Box T)}
    (unboxes : ∀ {V : StdInt} (a : Box V), onBox a = onInteger a.v)
    (computes : ∀ {V : StdInt} {a : Num V}, checkLimits T.toIntType V.toIntType a.val = true →
      onInteger a = Box.mk <$> result a.val) : a.apply ⟨x⟩ onInteger onBox = Box.mk <$> result (a.value x) := by
  cases a with
  | integer a => exact computes accepted
  | box a => exact (unboxes a).trans (computes accepted)
  | itself =>
    have own : checkLimits T.toIntType T.toIntType x.val = true :=
      (checkLimits_iff_holds T.standard T.standard x.held).mpr x.held
    exact (unboxes ⟨x⟩).trans (computes own)

/-- Every member but prefix `++` computes what the built-in operator does. -/
theorem BoxOp.onBox_eq {x : Num T} {op : BoxOp} (accepted : op.Accepted T) (other : op ≠ .preInc) :
    op.onBox ⟨x⟩ = do
      let (r, y) ← op.onPlain x
      return (r, ⟨y⟩) := by
  cases op with
  | add a =>
    have computed : a.apply ⟨x⟩ (Box.add ⟨x⟩) (Box.addBox ⟨x⟩) = Box.mk <$> Num.result T (x.val + a.value x) :=
      Argument.apply_eq (fun n => Num.result T (x.val + n)) accepted (fun _ => rfl) (Box.add_accepted x)
    rw [onBox, computed, onPlain]
    cases Num.result T (x.val + a.value x) <;> rfl
  | sub a =>
    have computed : a.apply ⟨x⟩ (Box.sub ⟨x⟩) (Box.subBox ⟨x⟩) = Box.mk <$> Num.result T (x.val - a.value x) :=
      Argument.apply_eq (fun n => Num.result T (x.val - n)) accepted (fun _ => rfl) (Box.sub_accepted x)
    rw [onBox, computed, onPlain]
    cases Num.result T (x.val - a.value x) <;> rfl
  | addAssign a =>
    have computed : a.apply ⟨x⟩ (Box.addAssign ⟨x⟩) (Box.addAssignBox ⟨x⟩) = Box.mk <$> Num.result T (x.val + a.value x) :=
      Argument.apply_eq (fun n => Num.result T (x.val + n)) accepted (fun _ => rfl) (Box.addAssign_accepted x)
    rw [onBox, computed, onPlain]
    cases Num.result T (x.val + a.value x) <;> rfl
  | subAssign a =>
    have computed : a.apply ⟨x⟩ (Box.subAssign ⟨x⟩) (Box.subAssignBox ⟨x⟩) = Box.mk <$> Num.result T (x.val - a.value x) :=
      Argument.apply_eq (fun n => Num.result T (x.val - n)) accepted (fun _ => rfl) (Box.subAssign_accepted x)
    rw [onBox, computed, onPlain]
    cases Num.result T (x.val - a.value x) <;> rfl
  | preInc => exact absurd rfl other
  | preDec =>
    rw [onBox, Box.preDec, onPlain, Num.pred]
    cases Num.result T (x.val - 1) <;> rfl
  | postInc =>
    rw [onBox, Box.postInc, Box.of_self, onPlain, Num.succ]
    cases Num.result T (x.val + 1) <;> rfl
  | postDec =>
    rw [onBox, Box.postDec, Box.of_self, onPlain, Num.pred]
    cases Num.result T (x.val - 1) <;> rfl

/-- Prefix `++` goes down instead. -/
theorem BoxOp.onBox_preInc_ne {x : Num T} {outcome : Num T × Num T} (plain : preInc.onPlain x = .ok outcome)
    (b : Box T) : preInc.onBox ⟨x⟩ ≠ .ok (outcome.1, b) := by
  intro boxed
  rw [onBox, Box.preInc, Num.pred] at boxed
  rw [onPlain] at plain
  cases up : Num.result T (x.val + 1) with
  | error fault => simp [up, bind, Except.bind] at plain
  | ok y =>
    cases down : Num.result T (x.val - 1) with
    | error fault => simp [down, bind, Except.bind] at boxed
    | ok z =>
      simp only [up, bind, Except.bind, pure, Except.pure, Except.ok.injEq] at plain
      simp only [down, bind, Except.bind, pure, Except.pure, Except.ok.injEq, Prod.mk.injEq, ← plain] at boxed
      exact Num.succ_ne_pred up (boxed.1 ▸ down)

theorem runBoxOps_eq {x : Num T} {ops : List BoxOp} (accepted : ∀ op ∈ ops, op.Accepted T)
    (absent : BoxOp.preInc ∉ ops) : runBoxOps BoxOp.onBox Box.v ⟨x⟩ ops = plainRun x ops := by
  induction ops generalizing x with
  | nil => rfl
  | cons op ops ih =>
    obtain ⟨first, rest⟩ := List.forall_mem_cons.mp accepted
    have other : op ≠ .preInc := fun same => absent (same ▸ List.mem_cons_self)
    rw [plainRun, runBoxOps, runBoxOps, BoxOp.onBox_eq first other]
    cases op.onPlain x with
    | error fault => rfl
    | ok outcome =>
      have later := ih (x := outcome.2) rest (fun listed => absent (List.mem_cons_of_mem op listed))
      simp only [bind, Except.bind, pure, Except.pure, later]
      rfl

theorem boxedRun_eq (start : Num T) (ops : List BoxOp) :
    boxedRun start ops = runBoxOps BoxOp.onBox Box.v ⟨start⟩ ops := by
  rw [boxedRun, Box.of_self]
  rfl

theorem runBoxOps_cons_ok {step : σ → BoxOp → Except Fault (Num T × σ)} {value : σ → Num T} {s : σ} {op : BoxOp}
    {ops : List BoxOp} {trace : List (Num T × Num T)} (ran : runBoxOps step value s (op :: ops) = .ok trace) :
    ∃ r s' rest, step s op = .ok (r, s') ∧ runBoxOps step value s' ops = .ok rest ∧ trace = (r, value s') :: rest := by
  rw [runBoxOps] at ran
  cases first : step s op with
  | error fault => simp [first, bind, Except.bind] at ran
  | ok outcome =>
    cases later : runBoxOps step value outcome.2 ops with
    | error fault => simp [first, later, bind, Except.bind] at ran
    | ok rest =>
      simp only [first, later, bind, Except.bind, pure, Except.pure, Except.ok.injEq] at ran
      exact ⟨outcome.1, outcome.2, rest, rfl, later, ran.symm⟩

/-- From the first prefix `++` on, the runs differ. -/
theorem runBoxOps_ne {x : Num T} {ops : List BoxOp} (accepted : ∀ op ∈ ops, op.Accepted T)
    (present : BoxOp.preInc ∈ ops) {trace : List (Num T × Num T)} (plain : plainRun x ops = .ok trace) :
    runBoxOps BoxOp.onBox Box.v ⟨x⟩ ops ≠ .ok trace := by
  induction ops generalizing x trace with
  | nil => cases present
  | cons op ops ih =>
    intro boxed
    obtain ⟨first, rest⟩ := List.forall_mem_cons.mp accepted
    obtain ⟨r, y, tail, step, later, rfl⟩ := runBoxOps_cons_ok plain
    obtain ⟨r', b, tail', step', later', same⟩ := runBoxOps_cons_ok boxed
    obtain ⟨⟨rfl, -⟩, rfl⟩ : (r = r' ∧ id y = b.v) ∧ tail = tail' := by simpa using same
    by_cases up : op = .preInc
    · subst up
      exact BoxOp.onBox_preInc_ne step b step'
    · rw [BoxOp.onBox_eq first up, step] at step'
      obtain ⟨-, rfl⟩ : r = r ∧ ⟨y⟩ = b := by simpa [bind, Except.bind, pure, Except.pure] using step'
      exact ih rest ((List.mem_cons.mp present).resolve_left (Ne.symm up)) later later'

/-- While the plain variable does not overflow, the box yields the same values and holds the same value after
every operation if, and only if, prefix `++` is not among them. -/
theorem box_computes_iff {start : Num T} {ops : List BoxOp} (accepted : ∀ op ∈ ops, op.Accepted T)
    {trace : List (Num T × Num T)} (plain : plainRun start ops = .ok trace) :
    boxedRun start ops = .ok trace ↔ BoxOp.preInc ∉ ops := by
  rw [boxedRun_eq]
  constructor
  · exact fun same present => runBoxOps_ne accepted present plain same
  · exact fun absent => (runBoxOps_eq accepted absent).trans plain

def StdInt.int : StdInt := ⟨⟨32, true⟩, by decide, by decide⟩

def StdInt.uchar : StdInt := ⟨IntType.uchar, by decide, by decide⟩

def numbers (ran : Except Fault (List (Num T × Num T))) : Option (List (Int × Int)) :=
  ran.toOption.map (List.map (fun p => (p.1.val, p.2.val)))

def sampleOps : List BoxOp := [.addAssign (.integer (⟨100, by decide⟩ : Num StdInt.int)), .postDec, .add .itself]

/-- `b += 100; b--; b + b` over an `unsigned char` of value 200. -/
theorem box_computes_uchar : numbers (boxedRun (⟨200, by decide⟩ : Num StdInt.uchar) sampleOps) =
    some [(44, 44), (44, 43), (86, 43)] := by
  have accepted : ∀ op ∈ sampleOps, op.Accepted StdInt.uchar := by
    simp only [sampleOps, List.forall_mem_cons, List.not_mem_nil, false_implies, implies_true, BoxOp.Accepted,
      Argument.Accepted, and_true]
    decide
  obtain ⟨trace, plain⟩ : ∃ trace, plainRun (⟨200, by decide⟩ : Num StdInt.uchar) sampleOps = .ok trace := ⟨_, rfl⟩
  rw [(box_computes_iff accepted plain).mpr (by simp [sampleOps]), ← plain]
  decide

/-- `++b` on a boxed `int` of value 0 yields -1. -/
theorem box_not_plain : ¬ ∀ (T : StdInt) (start : Num T) (ops : List BoxOp) (trace : List (Num T × Num T)),
    (∀ op ∈ ops, op.Accepted T) → plainRun start ops = .ok trace → boxedRun start ops = .ok trace := by
  intro always
  have accepted : ∀ op ∈ [BoxOp.preInc], op.Accepted StdInt.int := by simp [BoxOp.Accepted]
  obtain ⟨trace, plain⟩ : ∃ trace, plainRun (⟨0, by decide⟩ : Num StdInt.int) [.preInc] = .ok trace := ⟨_, rfl⟩
  have same := congrArg numbers ((always _ _ _ trace accepted plain).trans plain.symm)
  exact absurd same (by decide)

end Runs

end CxxpyTree
