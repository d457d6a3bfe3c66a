/-
# Centers a band can be built around

`refine_center` for any pair of hops and any lengths.  Before the drift, row `k` is centered
where the time map puts it, clipped to the reference (`rowCenter`); every clip after the drift
is without effect (`refineCenterBy_eq`), because neither the centers nor the drift ever go back.

`refineCenterBy_usable` reads the two ends, the order and the range off that form, for exact
times and for times rounded in order, and for every rounding to integers that keeps the order
and the integers.
-/
import VocalCoach.RefineCenter
import Mathlib.Data.Int.ConditionallyCompleteOrder

namespace VocalCoach

open Interpolation LatticePath

/-! ## Roundings -/

/-- A rounding to integers that keeps the order; an integer is rounded to itself. -/
structure Rounding (round : ℚ → ℤ) : Prop where
  mono : Monotone round
  intCast : ∀ z : ℤ, round z = z

theorem rounding_roundHalfEven : Rounding roundHalfEven :=
  ⟨fun _ _ h => roundHalfEven_mono h, roundHalfEven_intCast⟩

/-! ## `refine_center`, over any rounding -/

section Centers

variable {K : Type*} (time : ℚ → ℚ) (round : ℚ → ℤ) (coarse : WarpingPath K)
  (coarseHop fineHop : ℚ) (n m : ℕ)

/-- The center of row `k` before the drift. -/
def rowCenter (k : ℕ) : ℤ :=
  if k = 0 then 0
  else clip (round ((TimeMap.fromWarpingPathBy time coarse.index1 coarse.index2
    coarseHop).userToReference (time ((k - 1 : ℕ) * fineHop)) / fineHop)) 0 m

/-- The center of row `k`. -/
def driftedCenter (k : ℕ) : ℤ :=
  rowCenter time round coarse coarseHop fineHop m k +
    round ((m - rowCenter time round coarse coarseHop fineHop m n : ℤ) * k / n)

variable {time round coarse coarseHop fineHop n m}

theorem rowCenter_range (k : ℕ) : 0 ≤ rowCenter time round coarse coarseHop fineHop m k ∧
    rowCenter time round coarse coarseHop fineHop m k ≤ m := by
  unfold rowCenter clip
  split_ifs <;> omega

/-- Where the path never goes back, neither do the centers before the drift. -/
theorem rowCenter_mono (htime : Monotone time) (hround : Rounding round) (hcoarse : coarse.pairs.Pairwise (· ≤ ·))
    (hcoarseHop : 0 < coarseHop) (hfineHop : 0 < fineHop) :
    Monotone (rowCenter time round coarse coarseHop fineHop m) := by
  have hmap : Monotone (TimeMap.fromWarpingPathBy time coarse.index1 coarse.index2
      coarseHop).userToReference := by
    intro s t hst
    have hknots : ((coarse.index1.map fun i : ℕ => time (i * coarseHop)).zip
        (coarse.index2.map fun j : ℕ => time (j * coarseHop))).Pairwise (· ≤ ·) := by
      rw [List.zip_map]
      refine List.pairwise_map.mpr (hcoarse.imp fun {p q} hpq => ⟨?_, ?_⟩)
      · exact htime (mul_le_mul_of_nonneg_right (by exact_mod_cast hpq.1) hcoarseHop.le)
      · exact htime (mul_le_mul_of_nonneg_right (by exact_mod_cast hpq.2) hcoarseHop.le)
    exact interp_mono hknots hst
  refine monotone_nat_of_le_succ fun k => ?_
  cases k with
  | zero => exact (rowCenter_range 1).1
  | succ k =>
    have hnext : ((k : ℕ) : ℚ) * fineHop ≤ ((k + 1 : ℕ) : ℚ) * fineHop :=
      mul_le_mul_of_nonneg_right (by push_cast; linarith) hfineHop.le
    have hrounded := hround.mono (div_le_div_of_nonneg_right (hmap (htime hnext)) hfineHop.le)
    show clip _ 0 m ≤ clip _ 0 m
    unfold clip
    simp only [Nat.add_sub_cancel]
    omega

/-- The drift never goes back, from nothing to the gap. -/
theorem drift_rounded (hround : Rounding round) {gap : ℤ} (hgap : 0 ≤ gap) (hn : 0 < n) :
    (Monotone fun k : ℕ => round (gap * k / n)) ∧ round (gap * (0 : ℕ) / n) = 0 ∧
      round (gap * n / n) = gap := by
  have hn' : (n : ℚ) ≠ 0 := by exact_mod_cast hn.ne'
  have hgap' : (0 : ℚ) ≤ gap := by exact_mod_cast hgap
  refine ⟨fun k l hkl => hround.mono ?_, ?_, ?_⟩
  · have hkl' : (k : ℚ) ≤ l := by exact_mod_cast hkl
    show (gap : ℚ) * k / n ≤ gap * l / n
    gcongr
  · have hzero := hround.intCast 0
    push_cast at hzero ⊢
    rwa [mul_zero, zero_div]
  · rw [mul_div_cancel_right₀ _ hn']
    exact hround.intCast gap

/-- The centers go from one corner to the other and never back. -/
theorem driftedCenter_mono (htime : Monotone time) (hround : Rounding round) (hcoarse : coarse.pairs.Pairwise (· ≤ ·))
    (hcoarseHop : 0 < coarseHop) (hfineHop : 0 < fineHop) (hn : 0 < n) :
    Monotone (driftedCenter time round coarse coarseHop fineHop n m) ∧
      driftedCenter time round coarse coarseHop fineHop n m 0 = 0 ∧
      driftedCenter time round coarse coarseHop fineHop n m n = m := by
  have hend := (@rowCenter_range K time round coarse coarseHop fineHop m n).2
  obtain ⟨hdrift, hzero, hlast⟩ := drift_rounded hround (sub_nonneg.mpr hend) hn
  refine ⟨fun k l hkl => ?_, ?_, ?_⟩
  · exact add_le_add (rowCenter_mono htime hround hcoarse hcoarseHop hfineHop hkl) (hdrift hkl)
  · unfold driftedCenter
    rw [hzero]
    rfl
  · unfold driftedCenter
    rw [hlast]
    omega

/-- **The centers in closed form**: no clip after the drift has an effect. -/
theorem refineCenterBy_eq (htime : Monotone time) (hround : Rounding round) (hcoarse : coarse.pairs.Pairwise (· ≤ ·))
    (hcoarseHop : 0 < coarseHop) (hfineHop : 0 < fineHop) (hn : 0 < n) :
    refineCenterBy time round coarse coarseHop fineHop n m =
      (List.range (n + 1)).map (driftedCenter time round coarse coarseHop fineHop n m) := by
  obtain ⟨hmono, hzero, hlast⟩ :=
    @driftedCenter_mono K time round coarse coarseHop fineHop n m htime hround hcoarse hcoarseHop hfineHop hn
  have hrange : ∀ k ≤ n, 0 ≤ driftedCenter time round coarse coarseHop fineHop n m k ∧
      driftedCenter time round coarse coarseHop fineHop n m k ≤ m := by
    intro k hk
    exact ⟨hzero.symm.trans_le (hmono (Nat.zero_le k)), (hmono hk).trans_eq hlast⟩
  -- the list as the loop leaves it, and how far its end is from the last column
  have hrows : (0 : ℤ) :: (List.range n).map (fun i : ℕ =>
      clip (round ((TimeMap.fromWarpingPathBy time coarse.index1 coarse.index2
        coarseHop).userToReference (time (i * fineHop)) / fineHop)) 0 m) =
      (List.range (n + 1)).map (rowCenter time round coarse coarseHop fineHop m) := by
    rw [List.range_succ_eq_map, List.map_cons, List.map_map]
    rfl
  have hgap : ((List.range (n + 1)).map (rowCenter time round coarse coarseHop fineHop m)).getD n 0 =
      rowCenter time round coarse coarseHop fineHop m n := by
    rw [List.getD_eq_getElem?_getD, List.getElem?_map, List.getElem?_range (Nat.lt_succ_self n)]
    rfl
  unfold refineCenterBy
  dsimp only
  rw [hrows, hgap]
  -- with or without a gap, the list before the last clip is the drifted one
  have hdrifted : (if (m : ℤ) - rowCenter time round coarse coarseHop fineHop m n ≠ 0 ∧ 0 < n then
      (((List.range (n + 1)).map (rowCenter time round coarse coarseHop fineHop m)).mapIdx
        fun i c => c + round ((m - rowCenter time round coarse coarseHop fineHop m n : ℤ) * i / n)).set
          n m
      else (List.range (n + 1)).map (rowCenter time round coarse coarseHop fineHop m)) =
      (List.range (n + 1)).map (driftedCenter time round coarse coarseHop fineHop n m) := by
    split_ifs with hdrifts
    · apply List.ext_getElem?
      intro k
      rw [List.getElem?_set, List.getElem?_mapIdx, List.getElem?_map, List.getElem?_map]
      by_cases hk : n = k
      · subst hk
        rw [if_pos rfl, if_pos (by simp), List.getElem?_range (Nat.lt_succ_self n), Option.map_some,
          hlast]
      · rw [if_neg hk, Option.map_map]
        by_cases hlt : k < n + 1
        · rw [List.getElem?_range hlt]
          rfl
        · rw [List.getElem?_eq_none (by simpa using hlt)]
          rfl
    · -- nothing to drift by
      have hnone : (m : ℤ) - rowCenter time round coarse coarseHop fineHop m n = 0 := by
        by_contra hgap
        exact hdrifts ⟨hgap, hn⟩
      refine List.map_congr_left fun k _ => ?_
      have hround0 := hround.intCast 0
      unfold driftedCenter
      rw [hnone, Int.cast_zero, zero_mul, zero_div]
      rw [Int.cast_zero] at hround0
      rw [hround0, add_zero]
  rw [hdrifted]
  apply List.ext_getElem?
  intro k
  rw [List.getElem?_mapIdx, List.getElem?_map]
  by_cases hlt : k < n + 1
  · obtain ⟨hlow, hhigh⟩ := hrange k (Nat.le_of_lt_succ hlt)
    rw [List.getElem?_range hlt, Option.map_some, Option.map_some, clip_eq hlow hhigh, ite_self]
  · rw [List.getElem?_eq_none (by simpa using hlt)]
    rfl

end Centers

/-! ## Usable centers -/

/-- One center for each row of the table, from column `0` to the last one, never going back
and never leaving the reference. -/
structure UsableCenters (centers : List ℤ) (n m : ℕ) : Prop where
  length_eq : centers.length = n + 1
  starts : centers.head? = some 0
  ends : centers.getLast? = some (m : ℤ)
  sorted : centers.Pairwise (· ≤ ·)
  inside : ∀ c ∈ centers, 0 ≤ c ∧ c ≤ m

theorem usableCenters_map_range {f : ℕ → ℤ} {n m : ℕ} (hmono : Monotone f) (hzero : f 0 = 0)
    (hlast : f n = m) : UsableCenters ((List.range (n + 1)).map f) n m where
  length_eq := by rw [List.length_map, List.length_range]
  starts := by rw [List.range_succ_eq_map, List.map_cons, List.head?_cons, hzero]
  ends := by rw [List.range_succ, List.map_append, List.map_singleton, List.getLast?_concat, hlast]
  sorted := List.pairwise_map.mpr (List.pairwise_lt_range.imp fun hlt => hmono hlt.le)
  inside := by
    intro c hc
    obtain ⟨k, hk, rfl⟩ := List.mem_map.mp hc
    have hle : k ≤ n := Nat.le_of_lt_succ (List.mem_range.mp hk)
    exact ⟨hzero.symm.trans_le (hmono (Nat.zero_le k)), (hmono hle).trans_eq hlast⟩

/-- A path that `banded_dtw` returns never goes back. -/
theorem pairs_rise_of_bandedDtw {α K : Type*} [Field K] [LinearOrder K] {dist : α → α → K}
    {a b : List α} {band : ℕ} {fullCenter : Option (List ℤ)} {path : WarpingPath K}
    (h : bandedDtw dist a b band fullCenter = .ok path) : path.pairs.Pairwise (· ≤ ·) :=
  (isPath_of_bandedDtw h).rises

/-- **`refine_center` yields centers a band can be built around**, for every coarse path that
never goes back, as those of `banded_dtw` do not, every pair of hops, all lengths, times that
are exact or rounded in order, and every rounding. -/
theorem refineCenterBy_usable {K : Type*} {time : ℚ → ℚ} (htime : Monotone time)
    {round : ℚ → ℤ} (hround : Rounding round)
    (coarse : WarpingPath K) (hcoarse : coarse.pairs.Pairwise (· ≤ ·)) {coarseHop fineHop : ℚ}
    (hcoarseHop : 0 < coarseHop) (hfineHop : 0 < fineHop) (n m : ℕ) (hn : 1 ≤ n) :
    UsableCenters (refineCenterBy time round coarse coarseHop fineHop n m) n m := by
  obtain ⟨hmono, hzero, hlast⟩ :=
    @driftedCenter_mono K time round coarse coarseHop fineHop n m htime hround hcoarse hcoarseHop hfineHop hn
  rw [refineCenterBy_eq htime hround hcoarse hcoarseHop hfineHop hn]
  exact usableCenters_map_range hmono hzero hlast

/-- A coarse path that `banded_dtw` returns. -/
def heldFrame : WarpingPath ℚ := ⟨[0, 0, 0, 1], [0, 1, 2, 3], 0⟩

theorem bandedDtw_heldFrame :
    bandedDtw (fun x y : ℚ => |x - y|) [1, 2] [1, 1, 1, 2] 3 none = .ok heldFrame := by
  decide +kernel

/-- The centers around it, on a grid that is not twice as fine. -/
theorem refineCenterBy_usable_heldFrame :
    UsableCenters (refineCenterBy id roundHalfEven heldFrame (3 / 2) 1 4 7) 4 7 :=
  refineCenterBy_usable monotone_id rounding_roundHalfEven heldFrame
    (pairs_rise_of_bandedDtw bandedDtw_heldFrame) (by norm_num) (by norm_num) 4 7 (by decide)

end VocalCoach
