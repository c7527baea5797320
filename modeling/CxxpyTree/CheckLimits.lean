import CxxpyTree.ParseNum

/-! The eight `check_limits` overloads of std-ext.hpp, each with its `enable_if` condition, its static
assertions and its comparisons. A comparison is made in the type C++ picks for its two operands. -/

namespace CxxpyTree

namespace IntType

/-- `v` is a value of `T`. -/
def Holds (T : IntType) (v : Int) : Prop := T.min ≤ v ∧ v ≤ T.max

instance (T : IntType) (v : Int) : Decidable (T.Holds v) := by unfold Holds; infer_instance

/-- A standard integer type takes a whole number of octets. -/
structure Standard (T : IntType) : Prop where
  positive : 0 < T.bits
  octets : 8 ∣ T.bits

/-- Integral promotion, for an `int` of the given width. -/
def promote (int : Nat) (T : IntType) : IntType := if T.bits < int then ⟨int, true⟩ else T

/-- The common type of two promoted operands: the unsigned one unless the signed one is wider. -/
def balance (S T : IntType) : IntType :=
  if S.signed = T.signed then if S.bits < T.bits then T else S
  else if S.signed then if T.bits < S.bits then S else T
  else if S.bits < T.bits then T else S

def common (int : Nat) (S T : IntType) : IntType := balance (S.promote int) (T.promote int)

@[simp] theorem width_unsigned (bits : Nat) : width ⟨bits, false⟩ = bits := rfl
@[simp] theorem width_signed (bits : Nat) : width ⟨bits, true⟩ = bits - 1 := rfl

theorem max_le_max {S T : IntType} (narrow : S.width ≤ T.width) : S.max ≤ T.max := by
  have powers : (2 : Int) ^ S.width ≤ 2 ^ T.width := pow_le_pow_right₀ (by decide) narrow
  unfold max
  omega

theorem max_nonneg (T : IntType) : 0 ≤ T.max := by
  have positive : (0 : Int) < 2 ^ T.width := Int.pow_pos (by decide)
  unfold max
  omega

theorem max_lt_max {S T : IntType} (narrow : S.width < T.width) : S.max < T.max := by
  have powers : (2 : Int) ^ S.width < 2 ^ T.width := Int.pow_lt_pow_of_lt (by decide) narrow
  unfold max
  omega

theorem min_unsigned {T : IntType} (unsigned : T.signed = false) : T.min = 0 := by simp [min, unsigned]

theorem min_signed {T : IntType} (signed : T.signed = true) : T.min = -T.max - 1 := by
  simp [min, max, signed]

theorem min_nonpos (T : IntType) : T.min ≤ 0 := by
  cases signed : T.signed with
  | false => exact (min_unsigned signed).le
  | true =>
    have := T.max_nonneg
    rw [min_signed signed]
    omega

/-- A type holds the values of a narrower one, unless it is unsigned and the other one is not. -/
theorem Holds.widen {S T : IntType} {v : Int} (held : S.Holds v) (narrow : S.width ≤ T.width)
    (sign : T.signed = false → S.signed = false) : T.Holds v := by
  have upper := max_le_max narrow
  refine ⟨?_, held.2.trans upper⟩
  refine le_trans ?_ held.1
  cases wide : T.signed with
  | false => rw [min_unsigned wide, min_unsigned (sign wide)]
  | true =>
    rw [min_signed wide]
    cases small : S.signed with
    | false =>
      have := T.max_nonneg
      rw [min_unsigned small]
      omega
    | true =>
      rw [min_signed small]
      omega

/-- A conversion keeps what the target holds. -/
theorem Holds.cast {T : IntType} {v : Int} (positive : 0 < T.bits) (held : T.Holds v) : T.cast v = v := by
  obtain ⟨bits, signed⟩ := T
  obtain ⟨least, most⟩ := held
  cases signed with
  | false =>
    have below : v < 2 ^ bits := by simp only [max, width_unsigned] at most; omega
    exact Int.emod_eq_of_lt least below
  | true =>
    obtain ⟨half, rfl⟩ : ∃ half, bits = half + 1 := ⟨bits - 1, by simp only at positive; omega⟩
    simp only [min, max, width_signed, if_true, Nat.add_sub_cancel] at least most
    have doubled : ((2 ^ (half + 1) : Nat) : Int) = 2 * 2 ^ half := by rw [Nat.pow_succ]; push_cast; omega
    change v.bmod (2 ^ (half + 1)) = v
    exact Int.bmod_eq_of_le (by omega) (by omega)

theorem common_comm (int : Nat) (S T : IntType) : common int S T = common int T S := by
  unfold common balance
  generalize S.promote int = S
  generalize T.promote int = T
  obtain ⟨bits, signed⟩ := S
  obtain ⟨bits', signed'⟩ := T
  cases signed <;> cases signed' <;> grind

/-- Operands of one signedness meet in the wider of their types. -/
theorem common_of_same_sign {int : Nat} {S T : IntType} (same : S.signed = T.signed) (narrow : S.bits ≤ T.bits) :
    common int S T = T.promote int := by
  obtain ⟨bits, signed⟩ := S
  obtain ⟨bits', signed'⟩ := T
  obtain rfl : signed = signed' := same
  simp only at narrow
  unfold common promote balance
  cases signed <;> grind

theorem promote_positive {int : Nat} {T : IntType} (positive : 0 < T.bits) : 0 < (T.promote int).bits := by
  unfold promote
  split
  · next narrow => exact Nat.zero_lt_of_lt narrow
  · exact positive

theorem Holds.promote {int : Nat} {T : IntType} {v : Int} (held : T.Holds v) : (T.promote int).Holds v := by
  unfold IntType.promote
  split
  · refine held.widen ?_ (by simp)
    simp only [width_signed]
    unfold width
    split <;> omega
  · exact held

theorem Holds.cast_promote {int : Nat} {T : IntType} {v : Int} (positive : 0 < T.bits) (held : T.Holds v) :
    (T.promote int).cast v = v := held.promote.cast (promote_positive positive)

end IntType

structure Operand where
  type : IntType
  value : Int
  deriving DecidableEq, Repr

namespace Operand

def convert (T : IntType) (x : Operand) : Operand := ⟨T, T.cast x.value⟩

/-- What `x` is compared as, against `y`. -/
def against (int : Nat) (x y : Operand) : Int := (IntType.common int x.type y.type).cast x.value

def le (int : Nat) (x y : Operand) : Bool := x.against int y ≤ y.against int x
def lt (int : Nat) (x y : Operand) : Bool := x.against int y < y.against int x
def eq (int : Nat) (x y : Operand) : Bool := x.against int y = y.against int x

def zero (int : Nat) : Operand := ⟨⟨int, true⟩, 0⟩

end Operand

inductive Bound
  | min
  | max
  deriving DecidableEq, Repr

namespace Bound

def operand (T : IntType) : Bound → Operand
  | min => ⟨T, T.min⟩
  | max => ⟨T, T.max⟩

end Bound

/-- A comparison of `v` with a bound of `R`, which may be cast to `V` first. -/
structure Comparison where
  bound : Bound
  cast : Bool
  deriving DecidableEq, Repr

namespace Comparison

def operand (R V : IntType) (c : Comparison) : Operand :=
  if c.cast then (c.bound.operand R).convert V else c.bound.operand R

/-- `v >= min<R>()`, `v <= max<R>()`, or the same with the bound cast. -/
def returns (int : Nat) (R V : IntType) (v : Int) (c : Comparison) : Bool :=
  match c.bound with
  | .min => (c.operand R V).le int ⟨V, v⟩
  | .max => Operand.le int ⟨V, v⟩ (c.operand R V)

/-- No cast and no conversion changes a side of the comparison: the bound is the limit of `R` throughout. -/
structure Exact (int : Nat) (R V : IntType) (v : Int) (c : Comparison) : Prop where
  cast : (c.operand R V).value = (c.bound.operand R).value
  bound : (c.operand R V).against int ⟨V, v⟩ = (c.bound.operand R).value
  value : Operand.against int ⟨V, v⟩ (c.operand R V) = v

end Comparison

/-- The overloads in the order of the source. -/
inductive Overload
  | same
  | widen
  | narrowUnsigned
  | narrowSigned
  | widenToUnsigned
  | widenToSigned
  | narrowToUnsigned
  | narrowToSigned
  deriving DecidableEq, Repr

namespace Overload

def all : List Overload :=
  [same, widen, narrowUnsigned, narrowSigned, widenToUnsigned, widenToSigned, narrowToUnsigned, narrowToSigned]

def enabled (R V : IntType) : Overload → Bool
  | same => R.width = V.width
  | widen => R.signed = V.signed && R.width > V.width
  | narrowUnsigned => R.signed = false && V.signed = false && R.width < V.width
  | narrowSigned => R.signed = true && V.signed = true && R.width < V.width
  | widenToUnsigned => R.signed = false && V.signed = true && R.width > V.width
  | widenToSigned => R.signed = true && V.signed = false && R.width > V.width
  | narrowToUnsigned => R.signed = false && V.signed = true && R.width < V.width
  | narrowToSigned => R.signed = true && V.signed = false && R.width < V.width

/-- The overloads a call of `check_limits<R, V>` may take. -/
def candidates (R V : IntType) : List Overload := all.filter (enabled R V)

def asserts (int : Nat) (R V : IntType) : Overload → Bool
  | widenToUnsigned =>
    (Bound.min.operand R).eq int (.zero int) &&
    (Bound.min.operand V).lt int ((Bound.min.operand R).convert V)
  | narrowToUnsigned =>
    (Bound.min.operand R).eq int (.zero int) &&
    (Operand.zero int).lt int (Bound.max.operand R) &&
    (Bound.min.operand V).lt int ((Bound.min.operand R).convert V) &&
    ((Bound.max.operand R).convert V).lt int (Bound.max.operand V)
  | narrowToSigned =>
    (Operand.zero int).lt int (Bound.max.operand R) &&
    ((Bound.max.operand R).convert V).lt int (Bound.max.operand V)
  | same | widen | narrowUnsigned | narrowSigned | widenToSigned => true

def comparisons : Overload → List Comparison
  | same | widen | widenToSigned => []
  | narrowUnsigned => [⟨.max, false⟩]
  | narrowSigned => [⟨.min, false⟩, ⟨.max, false⟩]
  | widenToUnsigned => [⟨.min, true⟩]
  | narrowToUnsigned => [⟨.min, true⟩, ⟨.max, true⟩]
  | narrowToSigned => [⟨.max, true⟩]

def returns (int : Nat) (R V : IntType) (v : Int) (f : Overload) : Bool :=
  f.comparisons.all (Comparison.returns int R V v)

/-- `integer_cast(v, r)`: what it returns, and what it stores in `r`. -/
def integerCast (int : Nat) (R V : IntType) (v : Int) (f : Overload) : Bool × Option Int :=
  if f.returns int R V v then (true, some (R.cast v)) else (false, none)

end Overload

section Selection
variable {R V : IntType}

/-- Types of one width have one signedness, or one of them would miss a bit of an octet. -/
theorem same_sign_of_same_width (target : R.Standard) (source : V.Standard) (same : R.width = V.width) :
    R.signed = V.signed := by
  obtain ⟨positive, octets⟩ := target
  obtain ⟨positive', octets'⟩ := source
  obtain ⟨bits, signed⟩ := R
  obtain ⟨bits', signed'⟩ := V
  cases signed <;> cases signed' <;> simp only [IntType.width_unsigned, IntType.width_signed] at * <;> omega

/-- The overloads split the pairs of types: one of them is enabled. -/
theorem candidates_singleton (target : R.Standard) (source : V.Standard) :
    ∃ f, Overload.candidates R V = [f] ∧ f.enabled R V = true := by
  suffices one : ∃ f, Overload.candidates R V = [f] by
    obtain ⟨f, selected⟩ := one
    have chosen : f ∈ Overload.candidates R V := by rw [selected]; exact List.mem_singleton_self f
    exact ⟨f, selected, (List.mem_filter.mp chosen).2⟩
  have equal_widths := same_sign_of_same_width target source
  unfold Overload.candidates Overload.all
  rcases Nat.lt_trichotomy R.width V.width with narrow | same | wide
  · have differ := narrow.ne
    have no_wider : ¬ V.width < R.width := narrow.asymm
    cases signed : R.signed <;> cases signed' : V.signed <;>
      simp [Overload.enabled, signed, signed', differ, narrow, no_wider]
  · have sign := equal_widths same
    simp [Overload.enabled, same]
  · have differ := wide.ne'
    have no_narrower : ¬ R.width < V.width := wide.asymm
    cases signed : R.signed <;> cases signed' : V.signed <;>
      simp [Overload.enabled, signed, signed', differ, wide, no_narrower]

end Selection

section Comparisons
variable {int : Nat} {R V : IntType} {v : Int}

theorem Operand.against_of_same_sign {x y : Operand} (same : x.type.signed = y.type.signed)
    (narrow : x.type.bits ≤ y.type.bits) (positive : 0 < y.type.bits) (held : y.type.Holds x.value) :
    x.against int y = x.value := by
  rw [Operand.against, IntType.common_of_same_sign same narrow, held.cast_promote positive]

theorem Operand.against_of_same_sign' {x y : Operand} (same : x.type.signed = y.type.signed)
    (narrow : x.type.bits ≤ y.type.bits) (positive : 0 < y.type.bits) (held : y.type.Holds y.value) :
    y.against int x = y.value := by
  rw [Operand.against, IntType.common_comm, IntType.common_of_same_sign same narrow, held.cast_promote positive]

/-- A comparison is exact when `V` holds the bound, and `R` and `V` agree in sign where nothing is cast. -/
theorem Comparison.exact {c : Comparison} (positive : 0 < V.bits) (held : V.Holds v)
    (limit : V.Holds (c.bound.operand R).value)
    (uncast : c.cast = false → R.signed = V.signed ∧ R.bits ≤ V.bits) : c.Exact int R V v := by
  have kept : (c.operand R V).value = (c.bound.operand R).value := by
    unfold Comparison.operand
    split
    · exact limit.cast positive
    · rfl
  have typed : (c.operand R V).type.signed = V.signed ∧ (c.operand R V).type.bits ≤ V.bits := by
    unfold Comparison.operand
    split
    · exact ⟨rfl, le_rfl⟩
    · next plain =>
      have source : (c.bound.operand R).type = R := by cases c.bound <;> rfl
      rw [source]
      exact uncast (by simpa using plain)
  refine ⟨kept, ?_, ?_⟩
  · rw [← kept] at limit ⊢
    exact Operand.against_of_same_sign typed.1 typed.2 positive limit
  · exact Operand.against_of_same_sign' (y := ⟨V, v⟩) typed.1 typed.2 positive held

/-- What a comparison with a bound decides. -/
def Bound.admits (T : IntType) (v : Int) : Bound → Bool
  | min => T.min ≤ v
  | max => v ≤ T.max

theorem Comparison.Exact.returns {c : Comparison} (exact : c.Exact int R V v) :
    c.returns int R V v = c.bound.admits R v := by
  obtain ⟨bound, cast⟩ := c
  cases bound <;>
    simp only [Comparison.returns, Operand.le, exact.bound, exact.value, Bound.admits, Bound.operand]

theorem Overload.comparisons_exact (int : Nat) {f : Overload} (source : V.Standard)
    (enabled : f.enabled R V = true) (held : V.Holds v) : ∀ c ∈ f.comparisons, c.Exact int R V v := by
  have positive := source.positive
  have ofSame (signs : R.signed = V.signed) (narrow : R.width < V.width) {bound : Bound} {cast : Bool} :
      Comparison.Exact int R V v ⟨bound, cast⟩ := by
    have bits : R.bits ≤ V.bits := by
      unfold IntType.width at narrow
      rw [signs] at narrow
      split at narrow <;> omega
    have limit : R.Holds (bound.operand R).value := by
      have := R.min_nonpos.trans R.max_nonneg
      cases bound
      · exact ⟨le_rfl, this⟩
      · exact ⟨this, le_rfl⟩
    exact Comparison.exact positive held (limit.widen narrow.le (fun unsigned => signs.trans unsigned))
      (fun _ => ⟨signs, bits⟩)
  have ofCast {bound : Bound} (limit : V.Holds (bound.operand R).value) :
      Comparison.Exact int R V v ⟨bound, true⟩ := Comparison.exact positive held limit (by simp)
  have zero_held : V.Holds 0 := ⟨V.min_nonpos, V.max_nonneg⟩
  have max_held (narrow : R.width < V.width) : V.Holds R.max :=
    ⟨V.min_nonpos.trans R.max_nonneg, IntType.max_le_max narrow.le⟩
  cases f <;> simp only [Overload.enabled, Bool.and_eq_true, decide_eq_true_eq] at enabled <;>
    simp only [Overload.comparisons, List.forall_mem_cons, List.not_mem_nil, false_implies, implies_true, and_true]
  case narrowUnsigned => exact ofSame (enabled.1.1.trans enabled.1.2.symm) enabled.2
  case narrowSigned =>
    have signs := enabled.1.1.trans enabled.1.2.symm
    exact ⟨ofSame signs enabled.2, ofSame signs enabled.2⟩
  case widenToUnsigned => exact ofCast (by simpa [Bound.operand, IntType.min_unsigned enabled.1.1] using zero_held)
  case narrowToUnsigned =>
    exact ⟨ofCast (by simpa [Bound.operand, IntType.min_unsigned enabled.1.1] using zero_held),
      ofCast (max_held enabled.2)⟩
  case narrowToSigned => exact ofCast (max_held enabled.2)

theorem Overload.returns_eq_all (int : Nat) {f : Overload} (source : V.Standard) (enabled : f.enabled R V = true)
    (held : V.Holds v) : f.returns int R V v = f.comparisons.all (fun c => c.bound.admits R v) := by
  have exact := Overload.comparisons_exact int source enabled held
  rw [Overload.returns, Bool.eq_iff_iff, List.all_eq_true, List.all_eq_true]
  exact forall₂_congr (fun c listed => by rw [(exact c listed).returns])

theorem Overload.returns_iff_holds (int : Nat) {f : Overload} (target : R.Standard) (source : V.Standard)
    (enabled : f.enabled R V = true) (held : V.Holds v) : f.returns int R V v = true ↔ R.Holds v := by
  rw [Overload.returns_eq_all int source enabled held, List.all_eq_true]
  cases f <;> simp only [Overload.enabled, Bool.and_eq_true, decide_eq_true_eq] at enabled <;>
    simp only [Overload.comparisons, List.forall_mem_cons, List.not_mem_nil, false_implies, implies_true, and_true,
      true_iff, Bound.admits, decide_eq_true_eq]
  case same => exact held.widen enabled.ge (same_sign_of_same_width target source enabled ▸ id)
  case widen => exact held.widen enabled.2.le (enabled.1 ▸ id)
  case narrowUnsigned =>
    have least : R.min ≤ v := by
      rw [IntType.min_unsigned enabled.1.1, ← IntType.min_unsigned enabled.1.2]
      exact held.1
    exact ⟨fun most => ⟨least, most⟩, And.right⟩
  case narrowSigned => rfl
  case widenToUnsigned =>
    have most : v ≤ R.max := held.2.trans (IntType.max_le_max enabled.2.le)
    exact ⟨fun least => ⟨least, most⟩, And.left⟩
  case widenToSigned => exact held.widen enabled.2.le (by simp [enabled.1.1])
  case narrowToUnsigned => rfl
  case narrowToSigned =>
    have least : R.min ≤ v := R.min_nonpos.trans (IntType.min_unsigned enabled.1.2 ▸ held.1)
    exact ⟨fun most => ⟨least, most⟩, And.right⟩

end Comparisons

section Assertions
variable {int : Nat} {R V : IntType}

theorem IntType.common_int : IntType.common int R ⟨int, true⟩ = R.promote int := by
  obtain ⟨bits, signed⟩ := R
  unfold IntType.common IntType.promote IntType.balance
  cases signed <;> grind

theorem IntType.cast_zero (T : IntType) : T.cast 0 = 0 := by
  unfold IntType.cast
  split <;> simp

/-- The literal `0` against a bound of `R`. -/
theorem zero_lt_max (target : R.Standard) : (Operand.zero int).lt int (Bound.max.operand R) = true := by
  have many := Nat.le_of_dvd target.positive target.octets
  have positive : (0 : Int) < R.max := by
    have powers : (2 : Int) ^ 1 ≤ 2 ^ R.width := pow_le_pow_right₀ (by decide) (by unfold IntType.width; split <;> omega)
    unfold IntType.max
    omega
  have held : R.Holds R.max := ⟨R.min_nonpos.trans R.max_nonneg, le_rfl⟩
  simp only [Operand.lt, Operand.against, Operand.zero, Bound.operand, IntType.cast_zero, IntType.common_int,
    held.cast_promote target.positive, decide_eq_true_eq]
  exact positive

theorem min_eq_zero (unsigned : R.signed = false) : (Bound.min.operand R).eq int (Operand.zero int) = true := by
  simp [Operand.eq, Operand.against, Operand.zero, Bound.operand, IntType.min_unsigned unsigned, IntType.cast_zero]

theorem lt_of_type (source : V.Standard) {x y : Int} (least : V.Holds x) (most : V.Holds y) :
    Operand.lt int ⟨V, x⟩ ⟨V, y⟩ = decide (x < y) := by
  have own {x y : Int} (held : V.Holds x) : Operand.against int ⟨V, x⟩ ⟨V, y⟩ = x :=
    Operand.against_of_same_sign (x := ⟨V, x⟩) (y := ⟨V, y⟩) rfl le_rfl source.positive held
  rw [Operand.lt, own least, own most]

theorem Overload.asserts_hold {f : Overload} (target : R.Standard) (source : V.Standard)
    (enabled : f.enabled R V = true) : f.asserts int R V = true := by
  have zero_held : V.Holds 0 := ⟨V.min_nonpos, V.max_nonneg⟩
  have min_held : V.Holds V.min := ⟨le_rfl, V.min_nonpos.trans V.max_nonneg⟩
  have max_held : V.Holds V.max := ⟨V.min_nonpos.trans V.max_nonneg, le_rfl⟩
  have below_zero (unsigned : R.signed = false) (signed : V.signed = true) :
      (Bound.min.operand V).lt int ((Bound.min.operand R).convert V) = true := by
    simp only [Bound.operand, Operand.convert, IntType.min_unsigned unsigned, IntType.cast_zero]
    rw [lt_of_type source min_held zero_held, decide_eq_true_eq, IntType.min_signed signed]
    have := V.max_nonneg
    omega
  have below_max (narrow : R.width < V.width) :
      ((Bound.max.operand R).convert V).lt int (Bound.max.operand V) = true := by
    have limit : V.Holds R.max := ⟨V.min_nonpos.trans R.max_nonneg, IntType.max_le_max narrow.le⟩
    simp only [Bound.operand, Operand.convert, limit.cast source.positive]
    rw [lt_of_type source limit max_held, decide_eq_true_eq]
    exact IntType.max_lt_max narrow
  cases f <;> simp only [Overload.enabled, Bool.and_eq_true, decide_eq_true_eq] at enabled <;>
    simp only [Overload.asserts, Bool.and_eq_true]
  case widenToUnsigned => exact ⟨min_eq_zero enabled.1.1, below_zero enabled.1.1 enabled.1.2⟩
  case narrowToUnsigned =>
    exact ⟨⟨⟨min_eq_zero enabled.1.1, zero_lt_max target⟩, below_zero enabled.1.1 enabled.1.2⟩, below_max enabled.2⟩
  case narrowToSigned => exact ⟨zero_lt_max target, below_max enabled.2⟩

end Assertions

section Decision
variable {int : Nat} {R V : IntType} {v : Int}

/-- What `integer_cast(v, r)` does, said of the value alone. -/
theorem Overload.integerCast_eq {f : Overload} (target : R.Standard) (source : V.Standard)
    (enabled : f.enabled R V = true) (held : V.Holds v) :
    f.integerCast int R V v = if R.Holds v then (true, some v) else (false, none) := by
  have decides := Overload.returns_iff_holds int target source enabled held
  unfold Overload.integerCast
  by_cases inside : R.Holds v
  · rw [if_pos (decides.mpr inside), if_pos inside, inside.cast target.positive]
  · rw [if_neg (fun returned => inside (decides.mp returned)), if_neg inside]

/-- `check_limits` decides whether `v` is a value of `R`: one overload is selected, its static assertions
hold, its comparisons are made on the bounds of `R` as they are, and `integer_cast` stores `v` when, and
only when, it returns true. -/
theorem checkLimits_decides (int : Nat) (target : R.Standard) (source : V.Standard) (held : V.Holds v) :
    ∃ f, Overload.candidates R V = [f] ∧ f.asserts int R V = true ∧
      (∀ c ∈ f.comparisons, c.Exact int R V v) ∧
      (f.returns int R V v = true ↔ R.Holds v) ∧
      ((f.integerCast int R V v).1 = true ↔ R.Holds v) ∧
      ((f.integerCast int R V v).1 = true ↔ (f.integerCast int R V v).2 = some v) ∧
      ((f.integerCast int R V v).1 = false → (f.integerCast int R V v).2 = none) := by
  obtain ⟨f, selected, enabled⟩ := candidates_singleton target source
  refine ⟨f, selected, Overload.asserts_hold target source enabled, Overload.comparisons_exact int source enabled held,
    Overload.returns_iff_holds int target source enabled held, ?_⟩
  rw [Overload.integerCast_eq target source enabled held]
  by_cases inside : R.Holds v <;> simp [inside]

/-- At the edge: `unsigned char` takes 255 of an `int` and refuses 256. -/
theorem checkLimits_decides_uchar : ∃ f, Overload.candidates ⟨8, false⟩ ⟨32, true⟩ = [f] ∧
    f.returns 32 ⟨8, false⟩ ⟨32, true⟩ 255 = true ∧ f.returns 32 ⟨8, false⟩ ⟨32, true⟩ 256 = false := by
  obtain ⟨f, selected, -, -, low, -⟩ := checkLimits_decides 32 (R := ⟨8, false⟩) (V := ⟨32, true⟩) (v := 255)
    ⟨by decide, by decide⟩ ⟨by decide, by decide⟩ (by decide)
  obtain ⟨g, selected', -, -, high, -⟩ := checkLimits_decides 32 (R := ⟨8, false⟩) (V := ⟨32, true⟩) (v := 256)
    ⟨by decide, by decide⟩ ⟨by decide, by decide⟩ (by decide)
  obtain rfl : f = g := by simpa using selected.symm.trans selected'
  refine ⟨f, selected, low.mpr (by decide), ?_⟩
  rw [Bool.eq_false_iff]
  exact fun returned => absurd (high.mp returned) (by decide)

/-- `checkLimits` is the selected overload. -/
theorem Overload.returns_eq_checkLimits (int : Nat) {f : Overload} (source : V.Standard)
    (enabled : f.enabled R V = true) (held : V.Holds v) : f.returns int R V v = checkLimits R V v := by
  rw [Overload.returns_eq_all int source enabled held]
  have lower (unsigned : R.signed = false) : V.cast R.min = R.min := by
    rw [IntType.min_unsigned unsigned, IntType.cast_zero]
  have upper (narrow : R.width < V.width) : V.cast R.max = R.max :=
    IntType.Holds.cast source.positive ⟨V.min_nonpos.trans R.max_nonneg, IntType.max_le_max narrow.le⟩
  unfold checkLimits
  cases f <;> simp only [Overload.enabled, Bool.and_eq_true, decide_eq_true_eq] at enabled <;>
    simp only [Overload.comparisons, List.all_cons, List.all_nil, Bool.and_true, Bound.admits]
  case same => rw [if_pos enabled]
  case widen => rw [if_neg enabled.2.ne', if_pos enabled]
  all_goals
    obtain ⟨⟨sign, sign'⟩, widths⟩ := enabled
  case narrowUnsigned | narrowSigned =>
    rw [if_neg widths.ne, if_neg (fun wide => widths.asymm wide.2), sign, sign']
  case widenToUnsigned =>
    rw [if_neg widths.ne', if_neg (fun same => by simp [sign, sign'] at same), sign, sign', lower sign]
    simp only [if_pos (show V.width < R.width from widths)]
  case widenToSigned =>
    rw [if_neg widths.ne', if_neg (fun same => by simp [sign, sign'] at same), sign, sign']
    simp only [if_pos (show V.width < R.width from widths)]
  case narrowToUnsigned =>
    rw [if_neg widths.ne, if_neg (fun same => by simp [sign, sign'] at same), sign, sign', lower sign, upper widths]
    simp only [if_neg widths.asymm]
  case narrowToSigned =>
    rw [if_neg widths.ne, if_neg (fun same => by simp [sign, sign'] at same), sign, sign', upper widths]
    simp only [if_neg widths.asymm]

theorem checkLimits_iff_holds (target : R.Standard) (source : V.Standard) (held : V.Holds v) :
    checkLimits R V v = true ↔ R.Holds v := by
  obtain ⟨f, -, enabled⟩ := candidates_singleton target source
  rw [← Overload.returns_eq_checkLimits 32 source enabled held]
  exact Overload.returns_iff_holds 32 target source enabled held

end Decision

end CxxpyTree
