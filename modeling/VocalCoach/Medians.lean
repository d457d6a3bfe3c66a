/-
# Medians

The middle value of a list over an ordered field, as a library of its own.

`Balanced m xs`: at most half of the list lies below `m` and at most half above it.  A value
with this property minimizes the sum of the distances to the list (`Balanced.sumDist_le`):
moving away from it by `t` brings at most half of the entries closer by at most `t`, and takes
all others `t` further off.  `median` is the middle entry of the sorted list, or the mean of
the two middle ones, and is balanced (`balanced_median`).
-/
import Mathlib.Data.List.Sort
import Mathlib.Data.List.GetD
import Mathlib.Algebra.Order.Field.Basic
import Mathlib.Algebra.Order.BigOperators.Group.List
import Mathlib.Tactic.Linarith
import Mathlib.Tactic.Ring

namespace Medians

/-! ## Sorted entries -/

section Sorted

variable {K : Type*} [LinearOrder K]

/-- The entries in increasing order. -/
def sorted (xs : List K) : List K := xs.insertionSort (· ≤ ·)

@[simp] theorem length_sorted (xs : List K) : (sorted xs).length = xs.length :=
  List.length_insertionSort _ xs

theorem pairwise_sorted (xs : List K) : (sorted xs).Pairwise (· ≤ ·) :=
  List.pairwise_insertionSort (· ≤ ·) xs

/-- An entry that follows `m` in order leaves only earlier entries below `m`. -/
theorem countP_lt_le {l : List K} (hl : l.Pairwise (· ≤ ·)) {i : ℕ} (hi : i < l.length) {m : K}
    (hm : m ≤ l[i]) : l.countP (· < m) ≤ i := by
  have hlate : (l.drop i).countP (· < m) = 0 := by
    rw [List.countP_eq_zero]
    intro x hx
    obtain ⟨j, hj, rfl⟩ := List.mem_drop_iff_getElem.mp hx
    have hle : l[i] ≤ l[i + j] := by
      rcases Nat.eq_zero_or_pos j with rfl | hpos
      · exact le_rfl
      · exact List.pairwise_iff_getElem.mp hl i (i + j) _ _ (by omega)
    simpa using hm.trans hle
  rw [← List.take_append_drop i l, List.countP_append, hlate, add_zero]
  exact List.countP_le_length.trans (List.length_take_le i l)

/-- An entry that `m` follows in order leaves only later entries above `m`. -/
theorem countP_gt_le {l : List K} (hl : l.Pairwise (· ≤ ·)) {i : ℕ} (hi : i < l.length) {m : K}
    (hm : l[i] ≤ m) : l.countP (m < ·) ≤ l.length - (i + 1) := by
  have hearly : (l.take (i + 1)).countP (m < ·) = 0 := by
    rw [List.countP_eq_zero]
    intro x hx
    obtain ⟨j, hj, rfl⟩ := List.mem_take_iff_getElem.mp hx
    have hle : l[j] ≤ l[i] := by
      rcases Nat.lt_or_ge j i with hlt | hge
      · exact List.pairwise_iff_getElem.mp hl j i _ _ hlt
      · have hji : j = i := by omega
        subst hji
        exact le_rfl
    simpa using hle.trans hm
  conv_lhs => rw [← List.take_append_drop (i + 1) l]
  rw [List.countP_append, hearly, zero_add]
  exact List.countP_le_length.trans (List.length_drop ..).le

end Sorted

variable {K : Type*} [Field K] [LinearOrder K] [IsStrictOrderedRing K]

/-! ## The sum of the distances -/

/-- The sum of the distances of the entries to `s`. -/
def sumDist (s : K) (xs : List K) : K := (xs.map fun x => |x - s|).sum

/-- `m` has at most half of the list on either side. -/
structure Balanced (m : K) (xs : List K) : Prop where
  below : 2 * xs.countP (· < m) ≤ xs.length
  above : 2 * xs.countP (m < ·) ≤ xs.length

/-- What a move from `m` up to `s` costs: every entry that is not above `m` is that much
further away, every other one at best that much closer. -/
theorem sumDist_of_le {m s : K} (h : m ≤ s) (xs : List K) :
    sumDist m xs + (s - m) * (xs.length - 2 * xs.countP (m < ·)) ≤ sumDist s xs := by
  induction xs with
  | nil => simp [sumDist]
  | cons x xs ih =>
    simp only [sumDist, List.map_cons, List.sum_cons, List.length_cons, List.countP_cons] at ih ⊢
    by_cases hx : m < x
    · -- an entry above `m`
      have hcloser : |x - m| - (s - m) ≤ |x - s| := by
        have htriangle := abs_sub_abs_le_abs_sub (x - m) (s - m)
        rw [abs_of_nonneg (sub_nonneg.mpr h), sub_sub_sub_cancel_right] at htriangle
        exact htriangle
      simp only [hx, decide_true, if_true]
      push_cast
      linarith
    · -- an entry at `m` or below
      have hfurther : |x - s| = |x - m| + (s - m) := by
        rw [abs_of_nonpos (by linarith), abs_of_nonpos (by linarith)]
        ring
      simp only [hx, decide_false, Bool.false_eq_true, if_false, hfurther]
      push_cast
      linarith

omit [IsStrictOrderedRing K] in
/-- Turning the line around. -/
theorem sumDist_neg (s : K) (xs : List K) : sumDist (-s) (xs.map (-·)) = sumDist s xs := by
  simp only [sumDist, List.map_map]
  congr 1
  apply List.map_congr_left
  intro x _
  show |-x - -s| = |x - s|
  rw [← abs_neg]
  congr 1
  ring

theorem Balanced.neg {m : K} {xs : List K} (h : Balanced m xs) : Balanced (-m) (xs.map (-·)) := by
  have hbelow : (xs.map (-·)).countP (· < -m) = xs.countP (m < ·) := by
    rw [List.countP_map]
    apply List.countP_congr
    intro x _
    simp
  have habove : (xs.map (-·)).countP (-m < ·) = xs.countP (· < m) := by
    rw [List.countP_map]
    apply List.countP_congr
    intro x _
    simp
  refine ⟨?_, ?_⟩
  · rw [hbelow, List.length_map]
    exact h.above
  · rw [habove, List.length_map]
    exact h.below

/-- A balanced value beats every larger one. -/
theorem Balanced.sumDist_le_of_le {m s : K} {xs : List K} (h : Balanced m xs) (hs : m ≤ s) :
    sumDist m xs ≤ sumDist s xs := by
  have hhalf : (0 : K) ≤ xs.length - 2 * xs.countP (m < ·) := by
    rw [sub_nonneg]
    exact_mod_cast h.above
  have hcost := sumDist_of_le hs xs
  have hnonneg := mul_nonneg (sub_nonneg.mpr hs) hhalf
  linarith

/-- **A balanced value minimizes the sum of the distances.** -/
theorem Balanced.sumDist_le {m : K} {xs : List K} (h : Balanced m xs) (s : K) :
    sumDist m xs ≤ sumDist s xs := by
  rcases le_total m s with hs | hs
  · exact h.sumDist_le_of_le hs
  · rw [← sumDist_neg m, ← sumDist_neg s]
    exact h.neg.sumDist_le_of_le (neg_le_neg hs)

/-! ## The median -/

/-- The middle entry, or the mean of the two middle ones; `0` without entries. -/
def median (xs : List K) : K :=
  let n := xs.length
  if n % 2 = 1 then (sorted xs).getD (n / 2) 0
  else ((sorted xs).getD (n / 2 - 1) 0 + (sorted xs).getD (n / 2) 0) / (2 : ℕ)

/-- Of the two middle entries, the median is at least one and at most the other. -/
theorem median_between {xs : List K} (hxs : xs ≠ []) :
    (sorted xs).getD ((xs.length - 1) / 2) 0 ≤ median xs ∧
      median xs ≤ (sorted xs).getD (xs.length / 2) 0 := by
  have hpos : 0 < xs.length := List.length_pos_iff.mpr hxs
  unfold median
  dsimp only
  split_ifs with hodd
  · have hmiddle : (xs.length - 1) / 2 = xs.length / 2 := by omega
    rw [hmiddle]
    exact ⟨le_rfl, le_rfl⟩
  · have hmiddle : (xs.length - 1) / 2 = xs.length / 2 - 1 := by omega
    have hlow : xs.length / 2 - 1 < (sorted xs).length := by rw [length_sorted]; omega
    have hhigh : xs.length / 2 < (sorted xs).length := by rw [length_sorted]; omega
    have hle := List.pairwise_iff_getElem.mp (pairwise_sorted xs) _ _ hlow hhigh (by omega)
    rw [hmiddle, List.getD_eq_getElem _ _ hlow, List.getD_eq_getElem _ _ hhigh, Nat.cast_ofNat]
    constructor <;> linarith

/-- **The median is balanced.** -/
theorem balanced_median (xs : List K) : Balanced (median xs) xs := by
  rcases eq_or_ne xs [] with rfl | hxs
  · exact ⟨by simp, by simp⟩
  have hpos : 0 < xs.length := List.length_pos_iff.mpr hxs
  have hperm : (sorted xs).Perm xs := List.perm_insertionSort (· ≤ ·) xs
  obtain ⟨hlow, hhigh⟩ := median_between hxs
  have hlowIndex : (xs.length - 1) / 2 < (sorted xs).length := by rw [length_sorted]; omega
  have hhighIndex : xs.length / 2 < (sorted xs).length := by rw [length_sorted]; omega
  rw [List.getD_eq_getElem _ _ hlowIndex] at hlow
  rw [List.getD_eq_getElem _ _ hhighIndex] at hhigh
  have hbelow := countP_lt_le (pairwise_sorted xs) hhighIndex hhigh
  have habove := countP_gt_le (pairwise_sorted xs) hlowIndex hlow
  rw [hperm.countP_eq] at hbelow habove
  rw [length_sorted] at habove
  constructor <;> omega

/-- **No value is closer to the list, in sum, than its median.** -/
theorem sumDist_median_le (xs : List K) (s : K) : sumDist (median xs) xs ≤ sumDist s xs :=
  (balanced_median xs).sumDist_le s

omit [IsStrictOrderedRing K] in
/-- Moving list and value together moves nothing apart. -/
theorem sumDist_add (d s : K) (xs : List K) : sumDist (s + d) (xs.map (· + d)) = sumDist s xs := by
  simp only [sumDist, List.map_map]
  congr 1
  apply List.map_congr_left
  intro x _
  show |x + d - (s + d)| = |x - s|
  rw [add_sub_add_right_eq_sub]

/-- **The least sum of distances does not see a shift of the list.** -/
theorem sumDist_median_add (d : K) (xs : List K) :
    sumDist (median (xs.map (· + d))) (xs.map (· + d)) = sumDist (median xs) xs := by
  apply le_antisymm
  · calc sumDist (median (xs.map (· + d))) (xs.map (· + d))
        ≤ sumDist (median xs + d) (xs.map (· + d)) := sumDist_median_le _ _
      _ = sumDist (median xs) xs := sumDist_add d _ xs
  · have hback := sumDist_add d (median (xs.map (· + d)) - d) xs
    rw [sub_add_cancel] at hback
    rw [hback]
    exact sumDist_median_le xs _

/-- A positive factor goes through sorting, and so through the median. -/
theorem sorted_map_mul {c : K} (hc : 0 < c) (xs : List K) :
    sorted (xs.map (c * ·)) = (sorted xs).map (c * ·) :=
  (List.map_insertionSort (r := (· ≤ ·)) (s := (· ≤ ·)) (c * ·) xs fun _ _ _ _ =>
    (mul_le_mul_iff_right₀ hc).symm).symm

theorem median_map_mul {c : K} (hc : 0 < c) (xs : List K) :
    median (xs.map (c * ·)) = c * median xs := by
  have hentry : ∀ i, (sorted (xs.map (c * ·))).getD i 0 = c * (sorted xs).getD i 0 := by
    intro i
    rw [sorted_map_mul hc, List.getD_eq_getElem?_getD, List.getD_eq_getElem?_getD,
      List.getElem?_map]
    cases (sorted xs)[i]? with
    | none => exact (mul_zero c).symm
    | some x => rfl
  unfold median
  dsimp only
  rw [List.length_map, hentry, hentry]
  split_ifs
  · rfl
  · rw [← mul_add, mul_div_assoc]

end Medians
