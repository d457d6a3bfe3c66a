/-
# Similarity of sequences

The cosine of the angle between two vectors and the Pearson correlation of two series, over
any ordered field.  The square root is a parameter, so that both compute wherever it does.

Both lie between `-1` and `1` by the Cauchy–Schwarz inequality (`dot_sq_le`), are `1` for a
sequence with itself, and do not change when one side is multiplied by a positive constant;
the correlation does not change under a shift, either.
-/
import Mathlib.Algebra.Order.BigOperators.Ring.Finset
import Mathlib.Algebra.Order.Field.Basic
import Mathlib.Tactic.FieldSimp
import Mathlib.Tactic.Linarith
import Mathlib.Tactic.Positivity

namespace Similarity

variable {K : Type*} [Field K] [LinearOrder K]

/-! ## The dot product -/

/-- The sum of the products, as far as both sides go. -/
def dot (xs ys : List K) : K := (List.zipWith (· * ·) xs ys).sum

omit [LinearOrder K] in
@[simp] theorem dot_nil_left (ys : List K) : dot [] ys = 0 := rfl

omit [LinearOrder K] in
@[simp] theorem dot_nil_right (xs : List K) : dot xs [] = 0 := by simp [dot]

omit [LinearOrder K] in
@[simp] theorem dot_cons_cons (x y : K) (xs ys : List K) :
    dot (x :: xs) (y :: ys) = x * y + dot xs ys := by simp [dot]

omit [LinearOrder K] in
theorem dot_comm (xs ys : List K) : dot xs ys = dot ys xs := by
  induction xs generalizing ys with
  | nil => simp
  | cons x xs ih =>
    cases ys with
    | nil => simp
    | cons y ys => rw [dot_cons_cons, dot_cons_cons, ih, mul_comm]

omit [LinearOrder K] in
theorem dot_map_mul_left (c : K) (xs ys : List K) : dot (xs.map (c * ·)) ys = c * dot xs ys := by
  induction xs generalizing ys with
  | nil => simp
  | cons x xs ih =>
    cases ys with
    | nil => simp
    | cons y ys =>
      rw [List.map_cons, dot_cons_cons, dot_cons_cons, ih]
      ring

omit [LinearOrder K] in
/-- A dot product as a sum over the positions. -/
theorem dot_eq_sum (xs ys : List K) {n : ℕ} (h : xs.length ≤ n) :
    dot xs ys = ∑ i ∈ Finset.range n, xs.getD i 0 * ys.getD i 0 := by
  induction xs generalizing ys n with
  | nil => simp
  | cons x xs ih =>
    obtain ⟨n, rfl⟩ := Nat.exists_eq_succ_of_ne_zero (show n ≠ 0 by rintro rfl; simp at h)
    rw [Finset.sum_range_succ']
    cases ys with
    | nil => simp
    | cons y ys =>
      rw [dot_cons_cons, ih ys (by simpa using h), add_comm]
      rfl

variable [IsStrictOrderedRing K]

theorem dot_self_nonneg (xs : List K) : 0 ≤ dot xs xs := by
  induction xs with
  | nil => simp
  | cons x xs ih =>
    rw [dot_cons_cons]
    exact add_nonneg (mul_self_nonneg x) ih

/-- A vector without length is zero. -/
theorem eq_zero_of_dot_self {xs : List K} (h : dot xs xs = 0) : ∀ x ∈ xs, x = 0 := by
  induction xs with
  | nil => simp
  | cons x xs ih =>
    rw [dot_cons_cons] at h
    have hrest := dot_self_nonneg xs
    have hfirst := mul_self_nonneg x
    have hx : x * x = 0 := by linarith
    exact List.forall_mem_cons.mpr ⟨mul_self_eq_zero.mp hx, ih (by linarith)⟩

/-- **The Cauchy–Schwarz inequality.** -/
theorem dot_sq_le (xs ys : List K) : dot xs ys ^ 2 ≤ dot xs xs * dot ys ys := by
  have hx : xs.length ≤ max xs.length ys.length := le_max_left _ _
  have hy : ys.length ≤ max xs.length ys.length := le_max_right _ _
  have hsum := Finset.sum_mul_sq_le_sq_mul_sq (Finset.range (max xs.length ys.length))
    (fun i => xs.getD i 0) (fun i => ys.getD i 0)
  rw [dot_eq_sum xs ys hx, dot_eq_sum xs xs hx, dot_eq_sum ys ys hy]
  simpa only [sq] using hsum

/-! ## The cosine -/

/-- A square root. -/
structure IsSqrt (sqrt : K → K) : Prop where
  nonneg : ∀ x, 0 ≤ sqrt x
  sq : ∀ x, 0 ≤ x → sqrt x ^ 2 = x

omit [IsStrictOrderedRing K] in
theorem IsSqrt.zero {sqrt : K → K} (h : IsSqrt sqrt) : sqrt 0 = 0 := by
  simpa using h.sq 0 le_rfl

omit [IsStrictOrderedRing K] in
theorem IsSqrt.eq_zero_iff {sqrt : K → K} (h : IsSqrt sqrt) {x : K} (hx : 0 ≤ x) :
    sqrt x = 0 ↔ x = 0 := by
  constructor
  · intro hroot
    have hsq := h.sq x hx
    rw [hroot, pow_two, mul_zero] at hsq
    exact hsq.symm
  · rintro rfl
    exact h.zero

theorem IsSqrt.mul_sqrt {sqrt : K → K} (h : IsSqrt sqrt) {c x : K} (hc : 0 ≤ c) (hx : 0 ≤ x) :
    sqrt (c ^ 2 * x) = c * sqrt x := by
  have hleft := h.sq (c ^ 2 * x) (mul_nonneg (sq_nonneg c) hx)
  have hright : (c * sqrt x) ^ 2 = c ^ 2 * x := by rw [mul_pow, h.sq x hx]
  exact (pow_left_inj₀ (h.nonneg _) (mul_nonneg hc (h.nonneg x)) (by decide : (2 : ℕ) ≠ 0)).mp
    (hleft.trans hright.symm)

variable (sqrt : K → K)

omit [LinearOrder K] [IsStrictOrderedRing K] in
/-- The length of a vector. -/
def norm (xs : List K) : K := sqrt (dot xs xs)

omit [IsStrictOrderedRing K] in
/-- The cosine of the angle between two vectors, zero if one of them has no direction. -/
def cosine (xs ys : List K) : K :=
  let denominator := norm sqrt xs * norm sqrt ys
  if denominator = 0 then 0 else dot xs ys / denominator

variable {sqrt}

/-- **The cosine lies between `-1` and `1`.** -/
theorem abs_cosine_le_one (h : IsSqrt sqrt) (xs ys : List K) : |cosine sqrt xs ys| ≤ 1 := by
  unfold cosine norm
  dsimp only
  split_ifs with hzero
  · simp
  · have hpos : 0 < sqrt (dot xs xs) * sqrt (dot ys ys) :=
      lt_of_le_of_ne (mul_nonneg (h.nonneg _) (h.nonneg _)) (Ne.symm hzero)
    have hsq : (sqrt (dot xs xs) * sqrt (dot ys ys)) ^ 2 = dot xs xs * dot ys ys := by
      rw [mul_pow, h.sq _ (dot_self_nonneg xs), h.sq _ (dot_self_nonneg ys)]
    rw [abs_div, abs_of_pos hpos, div_le_one hpos]
    exact abs_le_of_sq_le_sq (hsq ▸ dot_sq_le xs ys) hpos.le

omit [IsStrictOrderedRing K] in
theorem cosine_comm (xs ys : List K) : cosine sqrt xs ys = cosine sqrt ys xs := by
  unfold cosine
  rw [mul_comm (norm sqrt xs), dot_comm xs]

theorem cosine_self (h : IsSqrt sqrt) {xs : List K} (hxs : dot xs xs ≠ 0) :
    cosine sqrt xs xs = 1 := by
  have hprod : norm sqrt xs * norm sqrt xs = dot xs xs := by
    rw [← sq]
    exact h.sq _ (dot_self_nonneg xs)
  unfold cosine
  dsimp only
  rw [hprod, if_neg hxs, div_self hxs]

/-- **The cosine does not depend on the length of a vector.** -/
theorem cosine_mul_left (h : IsSqrt sqrt) {c : K} (hc : 0 < c) (xs ys : List K) :
    cosine sqrt (xs.map (c * ·)) ys = cosine sqrt xs ys := by
  have hnorm : norm sqrt (xs.map (c * ·)) = c * norm sqrt xs := by
    unfold norm
    rw [dot_map_mul_left, dot_comm, dot_map_mul_left, ← mul_assoc, ← sq,
      h.mul_sqrt hc.le (dot_self_nonneg xs)]
  unfold cosine
  dsimp only
  rw [hnorm, dot_map_mul_left, mul_assoc]
  by_cases hzero : norm sqrt xs * norm sqrt ys = 0
  · rw [hzero, mul_zero, if_pos rfl, if_pos rfl]
  · rw [if_neg hzero, if_neg (mul_ne_zero hc.ne' hzero), mul_div_mul_left _ _ hc.ne']

/-! ## The correlation -/

omit [LinearOrder K] [IsStrictOrderedRing K] in
def mean (xs : List K) : K := xs.sum / xs.length

omit [LinearOrder K] [IsStrictOrderedRing K] in
/-- The deviations from the mean. -/
def centered (xs : List K) : List K := xs.map fun x => x - mean xs

variable (sqrt)

omit [LinearOrder K] [IsStrictOrderedRing K] in
/-- The standard deviation of a series. -/
def stddev (xs : List K) : K := sqrt (dot (centered xs) (centered xs) / xs.length)

omit [LinearOrder K] [IsStrictOrderedRing K] in
/-- The covariance of two series of one length, as an estimate from a sample. -/
def covariance (xs ys : List K) : K := dot (centered xs) (centered ys) / (xs.length - 1)

omit [IsStrictOrderedRing K] in
/-- The Pearson correlation; zero for a series that is too short or constant. -/
def correlation (xs ys : List K) : K :=
  if xs.length < 2 ∨ stddev sqrt xs = 0 ∨ stddev sqrt ys = 0 then 0
  else
    min (max (covariance xs ys / sqrt (covariance xs xs) / sqrt (covariance ys ys)) (-1)) 1

variable {sqrt}

/-- **A correlation lies between `-1` and `1`.** -/
theorem correlation_range (xs ys : List K) :
    -1 ≤ correlation sqrt xs ys ∧ correlation sqrt xs ys ≤ 1 := by
  unfold correlation
  split_ifs
  · constructor <;> norm_num
  · exact ⟨le_min (le_max_right _ _) (by norm_num), min_le_right _ _⟩

omit [LinearOrder K] [IsStrictOrderedRing K] in
@[simp] theorem length_centered (xs : List K) : (centered xs).length = xs.length :=
  List.length_map _

theorem stddev_eq_zero_iff (h : IsSqrt sqrt) {xs : List K} (hxs : xs ≠ []) :
    stddev sqrt xs = 0 ↔ dot (centered xs) (centered xs) = 0 := by
  have hlength : (0 : K) < xs.length := by exact_mod_cast List.length_pos_iff.mpr hxs
  rw [stddev, h.eq_zero_iff (div_nonneg (dot_self_nonneg _) hlength.le), div_eq_zero_iff,
    or_iff_left hlength.ne']

/-- The divisors `n - 1` cancel between the two roots. -/
theorem sqrt_covariance_mul (h : IsSqrt sqrt) {xs ys : List K} (hlength : xs.length = ys.length)
    (hn : (0 : K) < (xs.length : K) - 1) :
    sqrt (covariance xs xs) * sqrt (covariance ys ys) * ((xs.length : K) - 1) =
      norm sqrt (centered xs) * norm sqrt (centered ys) := by
  have hA := dot_self_nonneg (centered xs)
  have hB := dot_self_nonneg (centered ys)
  have hsquare : ∀ zs : List K, zs.length = xs.length →
      sqrt (covariance zs zs) ^ 2 * ((xs.length : K) - 1) = dot (centered zs) (centered zs) := by
    intro zs hzs
    rw [covariance, hzs, h.sq _ (div_nonneg (dot_self_nonneg _) hn.le), div_mul_cancel₀ _ hn.ne']
  refine (pow_left_inj₀ (mul_nonneg (mul_nonneg (h.nonneg _) (h.nonneg _)) hn.le)
    (mul_nonneg (h.nonneg _) (h.nonneg _)) (by decide : (2 : ℕ) ≠ 0)).mp ?_
  calc (sqrt (covariance xs xs) * sqrt (covariance ys ys) * ((xs.length : K) - 1)) ^ 2
      = (sqrt (covariance xs xs) ^ 2 * ((xs.length : K) - 1)) *
          (sqrt (covariance ys ys) ^ 2 * ((xs.length : K) - 1)) := by ring
    _ = dot (centered xs) (centered xs) * dot (centered ys) (centered ys) := by
        rw [hsquare xs rfl, hsquare ys hlength.symm]
    _ = (norm sqrt (centered xs) * norm sqrt (centered ys)) ^ 2 := by
        rw [mul_pow, norm, norm, h.sq _ hA, h.sq _ hB]

/-- **The correlation is the cosine of the deviations**: what the source clips is in range. -/
theorem correlation_eq_cosine (h : IsSqrt sqrt) {xs ys : List K} (hlength : xs.length = ys.length)
    (hlong : 2 ≤ xs.length) :
    correlation sqrt xs ys = cosine sqrt (centered xs) (centered ys) := by
  have hxs : xs ≠ [] := List.length_pos_iff.mp (by omega)
  have hys : ys ≠ [] := List.length_pos_iff.mp (by omega)
  have hcosine := abs_le.mp (abs_cosine_le_one h (centered xs) (centered ys))
  have hA := dot_self_nonneg (centered xs)
  have hB := dot_self_nonneg (centered ys)
  have hx : stddev sqrt xs = 0 ↔ norm sqrt (centered xs) = 0 :=
    (stddev_eq_zero_iff h hxs).trans (h.eq_zero_iff hA).symm
  have hy : stddev sqrt ys = 0 ↔ norm sqrt (centered ys) = 0 :=
    (stddev_eq_zero_iff h hys).trans (h.eq_zero_iff hB).symm
  unfold correlation
  by_cases hzero : norm sqrt (centered xs) * norm sqrt (centered ys) = 0
  · rw [if_pos (Or.inr ((mul_eq_zero.mp hzero).imp hx.mpr hy.mpr)), cosine, if_pos hzero]
  · have hvary : ¬ (xs.length < 2 ∨ stddev sqrt xs = 0 ∨ stddev sqrt ys = 0) := by
      rintro (hlt | hconst)
      · omega
      · exact hzero (mul_eq_zero.mpr (hconst.imp hx.mp hy.mp))
    rw [if_neg hvary]
    obtain ⟨m, hm⟩ := Nat.exists_eq_add_of_le hlong
    have hn : (0 : K) < (xs.length : K) - 1 := by
      rw [hm]
      push_cast
      linarith [(Nat.cast_nonneg m : (0 : K) ≤ m)]
    have hvalue : covariance xs ys / sqrt (covariance xs xs) / sqrt (covariance ys ys) =
        cosine sqrt (centered xs) (centered ys) := by
      rw [cosine, if_neg hzero, ← sqrt_covariance_mul h hlength hn, div_div, covariance, div_div,
        mul_comm ((xs.length : K) - 1)]
    rw [hvalue, max_eq_left hcosine.1, min_eq_left hcosine.2]

theorem correlation_comm (h : IsSqrt sqrt) {xs ys : List K} (hlength : xs.length = ys.length) :
    correlation sqrt xs ys = correlation sqrt ys xs := by
  by_cases hshort : xs.length < 2
  · unfold correlation
    rw [if_pos (Or.inl hshort), if_pos (Or.inl (hlength ▸ hshort))]
  · rw [correlation_eq_cosine h hlength (by omega),
      correlation_eq_cosine h hlength.symm (by omega), cosine_comm]

theorem correlation_self (h : IsSqrt sqrt) {xs : List K} (hlong : 2 ≤ xs.length)
    (hvaries : dot (centered xs) (centered xs) ≠ 0) : correlation sqrt xs xs = 1 := by
  rw [correlation_eq_cosine h rfl hlong, cosine_self h hvaries]

omit [LinearOrder K] in
theorem centered_affine [CharZero K] (c d : K) {xs : List K} (hxs : xs ≠ []) :
    centered (xs.map fun x => c * x + d) = (centered xs).map (c * ·) := by
  have hlength : (xs.length : K) ≠ 0 := by
    exact_mod_cast (List.length_pos_iff.mpr hxs).ne'
  have hsum : (xs.map fun x => c * x + d).sum = c * xs.sum + xs.length * d := by
    induction xs with
    | nil => simp
    | cons x xs ih =>
      by_cases hnil : xs = []
      · subst hnil
        simp
      · rw [List.map_cons, List.sum_cons, ih hnil (by
          exact_mod_cast (List.length_pos_iff.mpr hnil).ne'), List.sum_cons, List.length_cons]
        push_cast
        ring
  have hmean : mean (xs.map fun x => c * x + d) = c * mean xs + d := by
    rw [mean, mean, hsum, List.length_map]
    field_simp
  rw [centered, hmean, List.map_map, centered, List.map_map]
  refine List.map_congr_left fun x _ => ?_
  simp only [Function.comp_apply]
  ring

/-- **The correlation does not depend on the gain and the level of a series.** -/
theorem correlation_affine (h : IsSqrt sqrt) {c : K} (hc : 0 < c) (d : K) {xs ys : List K}
    (hlength : xs.length = ys.length) :
    correlation sqrt (xs.map fun x => c * x + d) ys = correlation sqrt xs ys := by
  by_cases hshort : xs.length < 2
  · unfold correlation
    rw [List.length_map, if_pos (Or.inl hshort), if_pos (Or.inl hshort)]
  · have hxs : xs ≠ [] := List.length_pos_iff.mp (by omega)
    rw [correlation_eq_cosine h (by rw [List.length_map, hlength]) (by rw [List.length_map]; omega),
      correlation_eq_cosine h hlength (by omega), centered_affine c d hxs, cosine_mul_left h hc]

end Similarity
