/-
# Floating-point values

The values a `float` can hold, as a library of its own: the finite ones are exact rationals,
next to them stand the two infinities and the value that is not a number.  Sums, products and
comparisons treat the special values as the arithmetic standard does: what is not a number
stays so, opposite infinities cancel to it, and no comparison with it holds.

`toRat` is the number a value holds, if it holds one.  The operations meet it as they should:
a sum holds a number exactly when every summand does (`toRat_sum`), and then their sum.

A machine rounds: `nearestDouble` is the double closest to a number, off by no more than
`abs_nearestDouble_sub_le` says.  A `FloatArithmetic` is one whose products and sums are as close to the exact
ones as those of doubles are, whatever the order of a sum and whether it is compensated.  Exact
arithmetic is one; of all of them `abs_weightedSum_sub_le` bounds the error of a weighted sum.
-/
import VocalCoach.Interpolation
import Mathlib.Algebra.Order.Field.Rat
import Mathlib.Algebra.Order.Group.Unbundled.Abs
import Mathlib.Algebra.BigOperators.Group.List.Basic
import Mathlib.Algebra.Order.BigOperators.Group.List
import Mathlib.Tactic.Linarith
import Mathlib.Tactic.NormNum
import Mathlib.Tactic.Positivity
import Mathlib.Tactic.Ring

/-- A `float`, rounding aside. -/
inductive Floating
  | finite (x : ℚ)
  | infinite (negative : Bool)
  | nan
  deriving DecidableEq, Repr, Inhabited

namespace Floating

/-! ## Operations -/

/-- `x + y`. -/
def add : Floating → Floating → Floating
  | finite x, finite y => finite (x + y)
  | infinite a, infinite b => if a = b then infinite a else nan
  | infinite a, finite _ => infinite a
  | finite _, infinite b => infinite b
  | nan, _ => nan
  | _, nan => nan

/-- `x * y` with a finite first factor. -/
def scale (x : ℚ) : Floating → Floating
  | finite y => finite (x * y)
  | infinite negative =>
      if x = 0 then nan else infinite (Bool.xor negative (decide (x < 0)))
  | nan => nan

/-- `abs(x)`. -/
def abs : Floating → Floating
  | finite x => finite |x|
  | infinite _ => infinite false
  | nan => nan

/-- `x < y`. -/
def lt : Floating → Floating → Bool
  | finite x, finite y => decide (x < y)
  | infinite a, infinite b => a && !b
  | infinite a, finite _ => a
  | finite _, infinite b => !b
  | nan, _ => false
  | _, nan => false

/-- `x <= y`. -/
def le : Floating → Floating → Bool
  | finite x, finite y => decide (x ≤ y)
  | infinite a, infinite b => a || !b
  | infinite a, finite _ => a
  | finite _, infinite b => !b
  | nan, _ => false
  | _, nan => false

/-- `sum(xs)`. -/
def sum (xs : List Floating) : Floating := xs.foldl add (finite 0)

/-! ## The number a value holds -/

/-- The number, if the value is one. -/
def toRat : Floating → Option ℚ
  | finite x => some x
  | infinite _ => none
  | nan => none

@[simp] theorem toRat_finite (x : ℚ) : (finite x).toRat = some x := rfl

theorem toRat_eq_some {v : Floating} {x : ℚ} : v.toRat = some x ↔ v = finite x := by
  cases v <;> simp [toRat]

theorem toRat_add (v w : Floating) :
    (add v w).toRat = v.toRat.bind fun x => w.toRat.map (x + ·) := by
  cases v <;> cases w <;> simp only [add] <;> (try split) <;> rfl

theorem toRat_scale (x : ℚ) (v : Floating) : (scale x v).toRat = v.toRat.map (x * ·) := by
  cases v with
  | finite y => rfl
  | infinite negative =>
    by_cases hx : x = 0 <;> simp [scale, hx, toRat]
  | nan => rfl

theorem toRat_foldl_add (xs : List Floating) (v : Floating) :
    (xs.foldl add v).toRat = v.toRat.bind fun x => (xs.mapM toRat).map fun ys => x + ys.sum := by
  induction xs generalizing v with
  | nil => cases v <;> simp [toRat]
  | cons w xs ih =>
    rw [List.foldl_cons, ih, toRat_add, List.mapM_cons]
    cases v.toRat with
    | none => rfl
    | some x =>
      cases w.toRat with
      | none => rfl
      | some y =>
        cases hys : xs.mapM toRat with
        | none => simp
        | some ys => simp [add_assoc]

/-- **A sum is a number exactly when every summand is one**, and then it is their sum. -/
theorem toRat_sum (xs : List Floating) : (sum xs).toRat = (xs.mapM toRat).map List.sum := by
  rw [sum, toRat_foldl_add]
  simp

/-- Numbers add up to their sum. -/
theorem sum_map_finite {α : Type} (xs : List α) (f : α → ℚ) :
    sum (xs.map fun a => finite (f a)) = finite (xs.map f).sum := by
  rw [← toRat_eq_some, toRat_sum, List.mapM_map]
  show Option.map List.sum (xs.mapM fun a => (pure (f a) : Option ℚ)) = _
  rw [List.mapM_pure]
  rfl

theorem eq_map_of_mapM {xs : List Floating} {ys : List ℚ} (h : xs.mapM toRat = some ys) :
    xs = ys.map finite := by
  induction xs generalizing ys with
  | nil =>
    cases h
    rfl
  | cons w xs ih =>
    rw [List.mapM_cons] at h
    obtain ⟨y, hy, h⟩ := Option.bind_eq_some_iff.mp h
    obtain ⟨zs, hzs, h⟩ := Option.bind_eq_some_iff.mp h
    cases h
    rw [List.map_cons, ← toRat_eq_some.mp hy, ← ih hzs]

/-- Where the sum is a number, every summand is one. -/
theorem eq_map_finite {xs : List Floating} {x : ℚ} (h : sum xs = finite x) :
    ∃ ys : List ℚ, xs = ys.map finite ∧ x = ys.sum := by
  obtain ⟨ys, hys, hx⟩ := Option.map_eq_some_iff.mp ((toRat_sum xs).symm.trans (toRat_eq_some.mpr h))
  exact ⟨ys, eq_map_of_mapM hys, hx.symm⟩

end Floating

/-! ## Machine arithmetic -/

/-- A rounding is off by no more than this share; half of it would do for one rounding. -/
def roundoff : ℚ := 1 / 2 ^ 52

/-- What a product may lose where doubles run out of exponents. -/
def underflow : ℚ := 1 / 2 ^ 1074

/-- Doubles reach farther than this. -/
def farReach : ℚ := 2 ^ 1000

/-- The double closest to a number that is not too great, ties to even. -/
def nearestDouble (x : ℚ) : ℚ :=
  let quotient : ℤ := x.num.natAbs.log2 - x.den.log2
  let exponent := if |x| < (2 : ℚ) ^ quotient then quotient - 1 else quotient
  let ulp := (2 : ℚ) ^ max (exponent - 52) (-1074)
  Interpolation.roundHalfEven (x / ulp) * ulp

@[simp] theorem nearestDouble_zero : nearestDouble 0 = 0 := by
  have hzero : Interpolation.roundHalfEven ((0 : ℤ) : ℚ) = 0 :=
    Interpolation.roundHalfEven_intCast 0
  rw [Int.cast_zero] at hzero
  unfold nearestDouble
  dsimp only
  rw [zero_div, hzero, Int.cast_zero, zero_mul]

/-- The quotient of the leading powers is at most twice the number. -/
theorem two_zpow_log2_le {x : ℚ} (hx : x ≠ 0) :
    (2 : ℚ) ^ ((x.num.natAbs.log2 : ℤ) - x.den.log2 - 1) ≤ |x| := by
  have hnum : (2 : ℚ) ^ x.num.natAbs.log2 ≤ x.num.natAbs := by
    exact_mod_cast Nat.log2_self_le (Int.natAbs_ne_zero.mpr (Rat.num_ne_zero.mpr hx))
  have hden : (x.den : ℚ) ≤ 2 ^ (x.den.log2 + 1) := by
    exact_mod_cast Nat.lt_log2_self.le
  have hpos : (0 : ℚ) < x.den := by exact_mod_cast x.den_pos
  have habs : |x| = x.num.natAbs / x.den := by
    conv_lhs => rw [← Rat.num_div_den x]
    rw [abs_div, Nat.abs_cast, Nat.cast_natAbs, Int.cast_abs]
  have hsplit : (2 : ℚ) ^ ((x.num.natAbs.log2 : ℤ) - x.den.log2 - 1) =
      2 ^ x.num.natAbs.log2 / 2 ^ (x.den.log2 + 1) := by
    rw [sub_sub, zpow_sub₀ two_ne_zero, zpow_natCast]
    norm_cast
  rw [habs, hsplit]
  exact div_le_div₀ (Nat.cast_nonneg _) hnum hpos hden

/-- **The error of one rounding**: half a unit in the last place. -/
theorem abs_nearestDouble_sub_le (x : ℚ) :
    |nearestDouble x - x| ≤ roundoff * |x| + underflow := by
  by_cases hx : x = 0
  · subst hx
    norm_num [roundoff, underflow]
  unfold nearestDouble
  dsimp only
  generalize hq : ((x.num.natAbs.log2 : ℤ) - x.den.log2) = quotient
  have hlow := two_zpow_log2_le hx
  rw [hq] at hlow
  generalize he : (if |x| < (2 : ℚ) ^ quotient then quotient - 1 else quotient) = exponent
  have hexponent : (2 : ℚ) ^ exponent ≤ |x| := by
    rw [← he]
    split_ifs with hlt
    · exact hlow
    · exact not_lt.mp hlt
  generalize hu : (2 : ℚ) ^ max (exponent - 52) (-1074) = ulp
  have hulp : 0 < ulp := hu ▸ zpow_pos two_pos _
  -- the unit is that of the binade, or the least one there is
  have hunit : ulp ≤ roundoff * |x| + underflow := by
    have hshare : 0 ≤ roundoff * |x| := mul_nonneg (by norm_num [roundoff]) (abs_nonneg x)
    have hleast : 0 ≤ underflow := by norm_num [underflow]
    rw [← hu]
    rcases le_total (exponent - 52) (-1074) with hmax | hmax
    · rw [max_eq_right hmax]
      have hunderflow : (2 : ℚ) ^ (-1074 : ℤ) = underflow := by
        rw [underflow, zpow_neg, one_div]
        norm_cast
      linarith
    · rw [max_eq_left hmax, zpow_sub₀ two_ne_zero]
      have hroundoff : (2 : ℚ) ^ exponent / 2 ^ (52 : ℤ) = roundoff * 2 ^ exponent := by
        rw [roundoff, div_mul_eq_mul_div, one_mul]
        norm_cast
      have hbinade : roundoff * 2 ^ exponent ≤ roundoff * |x| :=
        mul_le_mul_of_nonneg_left hexponent (by norm_num [roundoff])
      linarith
  have hround := Interpolation.abs_roundHalfEven_sub_le (x / ulp)
  have hscale : Interpolation.roundHalfEven (x / ulp) * ulp - x =
      (Interpolation.roundHalfEven (x / ulp) - x / ulp) * ulp := by
    rw [sub_mul, div_mul_cancel₀ _ hulp.ne']
  rw [hscale, abs_mul, abs_of_pos hulp]
  have hhalf : |(Interpolation.roundHalfEven (x / ulp) : ℚ) - x / ulp| * ulp ≤ 1 / 2 * ulp :=
    mul_le_mul_of_nonneg_right hround hulp.le
  linarith

/-- The same in one term, for numbers that are not tiny. -/
theorem abs_nearestDouble_sub_le_mul (x : ℚ) : |nearestDouble x - x| ≤ roundoff * (|x| + 1) := by
  have hunderflow : underflow ≤ roundoff :=
    one_div_le_one_div_of_le (by positivity) (pow_le_pow_right₀ (by norm_num) (by norm_num))
  have hround := abs_nearestDouble_sub_le x
  rw [mul_add, mul_one]
  linarith

/-- Products and sums of floating-point values, rounded. -/
structure FloatArithmetic where
  /-- `x * y` with a finite first factor. -/
  mul : ℚ → Floating → Floating
  /-- `sum(xs)`. -/
  sum : List Floating → Floating
  /-- A product that is a number is one of numbers, and close to the exact one. -/
  mul_eq_finite : ∀ {x : ℚ} {v : Floating} {y : ℚ}, mul x v = .finite y →
    ∃ w, v = .finite w ∧ |y - x * w| ≤ roundoff * |x * w| + underflow
  mul_finite : ∀ {x w : ℚ}, |x * w| ≤ farReach → ∃ y, mul x (.finite w) = .finite y
  /-- A sum that is a number is one of numbers, and close to the exact one. -/
  sum_eq_finite : ∀ {xs : List Floating} {s : ℚ}, sum xs = .finite s →
    ∃ ys : List ℚ, xs = ys.map .finite ∧
      |s - ys.sum| ≤ ys.length * roundoff * (ys.map fun y => |y|).sum
  sum_finite : ∀ {ys : List ℚ}, (ys.map fun y => |y|).sum ≤ farReach →
    ∃ s, sum (ys.map .finite) = .finite s
  /-- A sum of numbers may overflow, and no more. -/
  sum_ne_nan : ∀ ys : List ℚ, sum (ys.map .finite) ≠ .nan

namespace FloatArithmetic

theorem roundoff_nonneg : 0 ≤ roundoff := by unfold roundoff; positivity

theorem underflow_nonneg : 0 ≤ underflow := by unfold underflow; positivity

theorem roundoff_le_one : roundoff ≤ 1 := by norm_num [roundoff]

theorem sum_abs_nonneg {ι : Type} (names : List ι) (p : ι → ℚ) :
    0 ≤ (names.map fun a => |p a|).sum :=
  List.sum_nonneg fun x hx => by
    obtain ⟨a, -, rfl⟩ := List.mem_map.mp hx
    exact abs_nonneg _

/-- Nothing is rounded. -/
def exact : FloatArithmetic where
  mul := Floating.scale
  sum := Floating.sum
  mul_eq_finite {x v y} h := by
    have hsome := Floating.toRat_scale x v
    rw [h] at hsome
    obtain ⟨w, hw, hy⟩ := Option.map_eq_some_iff.mp hsome.symm
    refine ⟨w, Floating.toRat_eq_some.mp hw, ?_⟩
    rw [← hy, sub_self, abs_zero]
    exact add_nonneg (mul_nonneg roundoff_nonneg (abs_nonneg _)) underflow_nonneg
  mul_finite _ := ⟨_, rfl⟩
  sum_eq_finite {xs s} h := by
    obtain ⟨ys, hxs, rfl⟩ := Floating.eq_map_finite h
    refine ⟨ys, hxs, ?_⟩
    rw [sub_self, abs_zero]
    exact mul_nonneg (mul_nonneg (Nat.cast_nonneg _) roundoff_nonneg) (sum_abs_nonneg ys id)
  sum_finite {ys} _ := ⟨_, Floating.sum_map_finite ys id⟩
  sum_ne_nan ys h := by
    have hsum : Floating.sum (ys.map .finite) = .finite _ := Floating.sum_map_finite ys id
    rw [hsum] at h
    cases h

/-! ## The error of a weighted sum -/

variable {ι : Type} {names : List ι} {p y : ι → ℚ} {share slack : ℚ}

/-- Sums of numbers that are close are close. -/
theorem abs_sum_sub_le (h : ∀ a ∈ names, |y a - p a| ≤ share * |p a| + slack) :
    |(names.map y).sum - (names.map p).sum| ≤
      share * (names.map fun a => |p a|).sum + names.length * slack := by
  induction names with
  | nil => simp
  | cons a names ih =>
    have hhead := h a List.mem_cons_self
    have hrest := ih fun b hb => h b (List.mem_cons_of_mem _ hb)
    simp only [List.map_cons, List.sum_cons, List.length_cons, Nat.cast_add, Nat.cast_one]
    have hsplit : y a + (names.map y).sum - (p a + (names.map p).sum) =
        (y a - p a) + ((names.map y).sum - (names.map p).sum) := by
      ring
    rw [hsplit]
    refine (abs_add_le _ _).trans ((add_le_add hhead hrest).trans_eq ?_)
    ring

/-- Numbers that are close to others are not much greater. -/
theorem sum_abs_le (h : ∀ a ∈ names, |y a - p a| ≤ share * |p a| + slack) :
    (names.map fun a => |y a|).sum ≤
      (1 + share) * (names.map fun a => |p a|).sum + names.length * slack := by
  induction names with
  | nil => simp
  | cons a names ih =>
    have hhead := h a List.mem_cons_self
    have hrest := ih fun b hb => h b (List.mem_cons_of_mem _ hb)
    simp only [List.map_cons, List.sum_cons, List.length_cons, Nat.cast_add, Nat.cast_one]
    have htriangle : |y a| ≤ |p a| + |y a - p a| := by
      have hsum : y a = p a + (y a - p a) := by ring
      conv_lhs => rw [hsum]
      exact abs_add_le _ _
    calc |y a| + (names.map fun a => |y a|).sum
        ≤ |p a| + (share * |p a| + slack) +
            ((1 + share) * (names.map fun a => |p a|).sum + names.length * slack) :=
          add_le_add (htriangle.trans (by linarith)) hrest
      _ = (1 + share) * (|p a| + (names.map fun a => |p a|).sum) + (names.length + 1) * slack := by
          ring

variable (arith : FloatArithmetic) {x w : ι → ℚ}

theorem abs_mul_sub_le {x w y : ℚ} (h : arith.mul x (.finite w) = .finite y) :
    |y - x * w| ≤ roundoff * |x * w| + underflow := by
  obtain ⟨w', hw', hle⟩ := arith.mul_eq_finite h
  cases hw'
  exact hle

/-- **The error of a weighted sum**: a share of the sum of its absolute terms, but for what
underflows. -/
theorem abs_weightedSum_sub_le {s : ℚ} (hfew : names.length * roundoff ≤ 1)
    (h : arith.sum (names.map fun a => arith.mul (x a) (.finite (w a))) = .finite s) :
    |s - (names.map fun a => x a * w a).sum| ≤
      (2 * names.length + 1) * roundoff * (names.map fun a => |x a * w a|).sum +
        2 * names.length * underflow := by
  obtain ⟨ys, hys, herror⟩ := arith.sum_eq_finite h
  -- every term is a number
  have hterms : ∀ a ∈ names, ∃ y, arith.mul (x a) (.finite (w a)) = .finite y := by
    intro a ha
    have hmem : arith.mul (x a) (.finite (w a)) ∈ ys.map Floating.finite :=
      hys ▸ List.mem_map_of_mem ha
    obtain ⟨y, -, hy⟩ := List.mem_map.mp hmem
    exact ⟨y, hy.symm⟩
  choose! y hy using hterms
  have hclose : ∀ a ∈ names, |y a - x a * w a| ≤ roundoff * |x a * w a| + underflow :=
    fun a ha => arith.abs_mul_sub_le (hy a ha)
  have hlist : ys = names.map y := by
    have hboth : ys.map Floating.finite = (names.map y).map Floating.finite := by
      rw [← hys, List.map_map]
      exact List.map_congr_left fun a ha => hy a ha
    exact List.map_injective_iff.mpr (fun _ _ heq => Floating.finite.inj heq) hboth
  rw [hlist, List.length_map, List.map_map] at herror
  have hsum := abs_sum_sub_le hclose
  have habs := sum_abs_le hclose
  have htotal := sum_abs_nonneg names fun a => x a * w a
  change |s - (names.map y).sum| ≤ names.length * roundoff * (names.map fun a => |y a|).sum
    at herror
  have hsplit : s - (names.map fun a => x a * w a).sum =
      (s - (names.map y).sum) + ((names.map y).sum - (names.map fun a => x a * w a).sum) := by
    ring
  have htriangle : |s - (names.map fun a => x a * w a).sum| ≤
      |s - (names.map y).sum| + |(names.map y).sum - (names.map fun a => x a * w a).sum| := by
    rw [hsplit]
    exact abs_add_le _ _
  have hmore : names.length * roundoff * (names.map fun a => |y a|).sum ≤
      names.length * roundoff * ((1 + roundoff) * (names.map fun a => |x a * w a|).sum +
        names.length * underflow) :=
    mul_le_mul_of_nonneg_left habs (mul_nonneg (Nat.cast_nonneg _) roundoff_nonneg)
  refine htriangle.trans ((add_le_add (herror.trans hmore) hsum).trans ?_)
  have hn : (0 : ℚ) ≤ names.length := Nat.cast_nonneg _
  generalize (names.map fun a => |x a * w a|).sum = total at htotal ⊢
  generalize (names.length : ℚ) = n at hfew hn ⊢
  -- a rounding of a rounding error is no greater than the error
  have htwice : n * roundoff * total * roundoff ≤ n * roundoff * total * 1 :=
    mul_le_mul_of_nonneg_left roundoff_le_one
      (mul_nonneg (mul_nonneg hn roundoff_nonneg) htotal)
  have hlost : n * roundoff * (n * underflow) ≤ 1 * (n * underflow) :=
    mul_le_mul_of_nonneg_right hfew (mul_nonneg hn underflow_nonneg)
  linarith

/-- A weighted sum that is not too great is a number. -/
theorem exists_weightedSum
    (h : 2 * (names.map fun a => |x a * w a|).sum + names.length * underflow ≤ farReach) :
    ∃ s, arith.sum (names.map fun a => arith.mul (x a) (.finite (w a))) = .finite s := by
  have hlost : 0 ≤ names.length * underflow := mul_nonneg (Nat.cast_nonneg _) underflow_nonneg
  have htotal := sum_abs_nonneg names fun a => x a * w a
  have hterms : ∀ a ∈ names, ∃ y, arith.mul (x a) (.finite (w a)) = .finite y := by
    intro a ha
    refine arith.mul_finite (le_trans ?_ h)
    have hone : |x a * w a| ≤ (names.map fun a => |x a * w a|).sum := by
      refine List.single_le_sum (fun z hz => ?_) _ (List.mem_map_of_mem ha)
      obtain ⟨b, -, rfl⟩ := List.mem_map.mp hz
      exact abs_nonneg _
    linarith
  choose! y hy using hterms
  have hclose : ∀ a ∈ names, |y a - x a * w a| ≤ roundoff * |x a * w a| + underflow :=
    fun a ha => arith.abs_mul_sub_le (hy a ha)
  have hnames : (names.map fun a => arith.mul (x a) (.finite (w a))) =
      (names.map y).map Floating.finite := by
    rw [List.map_map]
    exact List.map_congr_left hy
  rw [hnames]
  refine arith.sum_finite ?_
  rw [List.map_map]
  have habs := sum_abs_le hclose
  have hdouble : (1 + roundoff) * (names.map fun a => |x a * w a|).sum ≤
      2 * (names.map fun a => |x a * w a|).sum :=
    mul_le_mul_of_nonneg_right (by linarith [roundoff_le_one]) htotal
  exact habs.trans ((add_le_add_left hdouble _).trans h)

end FloatArithmetic
