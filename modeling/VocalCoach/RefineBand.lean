/-
# When the refine pass can follow the coarse path

`_attempt_align` runs `banded_dtw` twice: on every `coarseStride`-th frame, and then on
all of them in a narrow band around what the first path says (`refine_center`).  The fine
pass fails although the coarse one did not when the centers jump by more than the band is
wide: a user frame matched to a long run of reference frames (a rest held longer on one
side) moves the center by `coarseStride` frames for each of them, all in one row.

* A band around nondecreasing centers that end in the corner holds a warping path if and only
  if no center is more than `2 * band + 1` past the one before (`exists_inBandPath_iff`,
  an instance of `LatticePath.reachable_corridor_iff`).
* On the fine grid only the row that lands on a coarse frame can jump that far
  (`RefineCenter`), so the band holds a path exactly when every run fits (`RunsFit`).  Frame
  times are doubles (`nearGrid_double`): some coarse frames are landed on one row late.

`attemptAlign_alignmentFailed_iff` is the result, `not_forall_refines` a take it fails on.
-/
import VocalCoach.CoarsePass
import VocalCoach.Overlaps
import VocalCoach.RefineCenter

namespace VocalCoach

open Interpolation LatticePath

/-! ## Bands around nondecreasing centers -/

section Band

variable {α : Type*} {a b : List α} {fullCenter : List ℤ} {band : ℕ}

/-- **Which bands hold a warping path.** -/
theorem exists_inBandPath_iff (ha : a ≠ []) (hb : b ≠ []) (hband : 1 ≤ band)
    (center : ℕ → ℤ) (hcenter : ∀ i, i < a.length → fullCenter.getD (i + 1) 0 = center i)
    (hmono : ∀ i, i + 1 < a.length → center i ≤ center (i + 1)) (hfirst : 0 ≤ center 0)
    (hlast : center (a.length - 1) = b.length) :
    (∃ path, InBandPath a b fullCenter band path) ↔
      center 0 ≤ band + 1 ∧
        ∀ i, i + 1 < a.length → center (i + 1) ≤ center i + (2 * band + 1) := by
  have hn := List.length_pos_iff.mpr ha
  have hm := List.length_pos_iff.mpr hb
  have hnonneg : ∀ i, i < a.length → 0 ≤ center i := by
    intro i hi
    induction i with
    | zero => exact hfirst
    | succ i ih => exact (ih (by omega)).trans (hmono i hi)
  -- a path to the end stays on rows of the table, so the bands are a corridor
  have hcorridor : (∃ path, InBandPath a b fullCenter band path) ↔
      Reachable (InCorridor (fun i => center i - band - 1) (fun i => center i + band - 1))
        (a.length - 1, b.length - 1) := by
    apply exists_congr
    intro path
    have hrow : ∀ q : ℕ × ℕ, q.1 ≤ a.length - 1 → (InBand fullCenter band (q.1 + 1) (q.2 + 1) ↔
        InCorridor (fun i => center i - band - 1) (fun i => center i + band - 1) q) := by
      intro q hq
      rw [inBand_iff, hcenter q.1 (by omega), InCorridor]
      omega
    constructor
    · intro h
      exact ⟨h.isPath, h.head, h.last, fun q hq => (hrow q (h.le_last q hq).1).mp (h.allowed q hq)⟩
    · intro h
      exact ⟨h.isPath, h.head, h.last, fun q hq => (hrow q (h.le_last q hq).1).mpr (h.allowed q hq)⟩
  rw [hcorridor, reachable_corridor_iff]
  · constructor
    · rintro ⟨hstart, hjump⟩
      refine ⟨by omega, fun i hi => ?_⟩
      have hi' := hjump i (by omega)
      omega
    · rintro ⟨hstart, hjump⟩
      refine ⟨by omega, fun i hi => ?_⟩
      have hi' := hjump i (by omega)
      omega
  · intro i hi
    have hi' := hmono i (by omega)
    omega
  · intro i hi
    have hi' := hnonneg i (by omega)
    omega
  · rw [InCorridor, hlast]
    dsimp only
    omega

end Band

/-! ## The times of the frames -/

theorem coarseStride_eq : coarseStride = 5 := by decide +kernel

theorem refineBand_eq : refineBand = 20 := by decide +kernel

theorem coarseBand_eq : coarseBand = 200 := by decide +kernel

/-- The two hops as doubles are near those of the constants. -/
theorem doubleHops_near : 1 / 200 < pitchHopDouble ∧ pitchHopDouble < 1 / 50 ∧
    |coarseHopDouble 5 - 5 * pitchHopDouble| ≤ roundoff * 2 := by
  have hhop := abs_nearestDouble_sub_le_mul pitchHopSeconds
  have hcoarse := abs_nearestDouble_sub_le_mul (((5 : ℕ) : ℚ) * pitchHopDouble)
  have hroundoff : roundoff * (|pitchHopSeconds| + 1) ≤ 1 / 400 := by
    rw [pitchHopSeconds, abs_of_pos (by norm_num)]
    norm_num [roundoff]
  obtain ⟨hlow, hhigh⟩ := abs_le.mp (hhop.trans hroundoff)
  rw [← pitchHopDouble, pitchHopSeconds] at hlow hhigh
  have hpos : 0 < pitchHopDouble := by linarith
  refine ⟨by linarith, by linarith, hcoarse.trans ?_⟩
  rw [abs_of_pos (by positivity)]
  push_cast
  exact mul_le_mul_of_nonneg_left (by linarith) FloatArithmetic.roundoff_nonneg

/-- **The times of the frames as doubles** are near the exact ones, for a million frames. -/
theorem nearGrid_double : NearGrid (fun k => nearestDouble (k * pitchHopDouble))
    (fun i => nearestDouble (i * coarseHopDouble 5)) pitchHopDouble 1000000 := by
  obtain ⟨hlow, hhigh, hcoarse⟩ := doubleHops_near
  have hpos : 0 < pitchHopDouble := by linarith
  have hunit := FloatArithmetic.roundoff_nonneg
  obtain ⟨hcoarseLow, hcoarseHigh⟩ := abs_le.mp hcoarse
  have htwo : roundoff * 2 ≤ 1 / 1000 := by norm_num [roundoff]
  refine ⟨hpos, fun k hk => ?_, fun i hi => ?_, by simp⟩
  · have hk' : (k : ℚ) ≤ 1000000 := by exact_mod_cast hk
    have htime : (k : ℚ) * pitchHopDouble ≤ 1000000 * (1 / 50) :=
      mul_le_mul hk' hhigh.le hpos.le (by norm_num)
    have hround := abs_nearestDouble_sub_le_mul ((k : ℚ) * pitchHopDouble)
    rw [abs_of_nonneg (by positivity : (0 : ℚ) ≤ k * pitchHopDouble)] at hround
    have hfew : roundoff * (k * pitchHopDouble + 1) ≤ roundoff * (1000000 * (1 / 50) + 1) :=
      mul_le_mul_of_nonneg_left (by linarith) hunit
    have hsmall : roundoff * (1000000 * (1 / 50) + 1) ≤ 1 / 64 * (1 / 200) := by norm_num [roundoff]
    have hsplit : nearestDouble (k * pitchHopDouble) / pitchHopDouble - k =
        (nearestDouble (k * pitchHopDouble) - k * pitchHopDouble) / pitchHopDouble := by
      field_simp
    rw [hsplit, abs_div, abs_of_pos hpos, div_le_iff₀ hpos]
    linarith
  · have hi' : (i : ℚ) ≤ 1000000 := by exact_mod_cast hi
    have hstep0 : 0 ≤ coarseHopDouble 5 := by linarith
    have htime : (i : ℚ) * coarseHopDouble 5 ≤ 1000000 * (1 / 8) :=
      mul_le_mul hi' (by linarith) hstep0 (by norm_num)
    have hround := abs_nearestDouble_sub_le_mul ((i : ℚ) * coarseHopDouble 5)
    rw [abs_of_nonneg (by positivity : (0 : ℚ) ≤ i * coarseHopDouble 5)] at hround
    have hfew : roundoff * (i * coarseHopDouble 5 + 1) ≤ roundoff * (1000000 * (1 / 8) + 1) :=
      mul_le_mul_of_nonneg_left (by linarith) hunit
    -- the error of the hop, once for each frame
    have hhops : |(i : ℚ) * (coarseHopDouble 5 - 5 * pitchHopDouble)| ≤ 1000000 * (roundoff * 2) := by
      rw [abs_mul, Nat.abs_cast]
      exact mul_le_mul hi' hcoarse (abs_nonneg _) (by norm_num)
    have hsmall : roundoff * (1000000 * (1 / 8) + 1) + 1000000 * (roundoff * 2) ≤
        1 / 64 * (1 / 200) := by norm_num [roundoff]
    have hsum := abs_add_le (nearestDouble (i * coarseHopDouble 5) - i * coarseHopDouble 5)
      ((i : ℚ) * (coarseHopDouble 5 - 5 * pitchHopDouble))
    have hsplit : nearestDouble (i * coarseHopDouble 5) / pitchHopDouble - 5 * i =
        (nearestDouble (i * coarseHopDouble 5) - i * coarseHopDouble 5 +
          i * (coarseHopDouble 5 - 5 * pitchHopDouble)) / pitchHopDouble := by
      field_simp
      ring
    rw [hsplit, abs_div, abs_of_pos hpos, div_le_iff₀ hpos]
    linarith

/-! ## Runs of the coarse path -/

/-- The coarse frames whose knot, as a double, is later than the fine frame on it. -/
def lateFrame : ℕ → Bool := lateOf nearestDouble (coarseHopDouble coarseStride) pitchHopDouble

example : (List.range 13).filter lateFrame = [3, 6, 12] := by decide +kernel

section Runs

variable {Hz K : Type*} [Field K] [LinearOrder K]

/-- What the last fine frame leaves of the reference. -/
def Overlap.endGap {α : Type*} (curves : Overlap α) (path : List (ℕ × ℕ)) : ℤ :=
  curves.referenceFine.length -
    projected lateFrame path (curves.userCoarse.length - 1) (curves.userFine.length - 1)

/-- The share of it that row `k` has drifted by. -/
def Overlap.drifted {α : Type*} (curves : Overlap α) (path : List (ℕ × ℕ)) (k : ℕ) : ℤ :=
  drift (curves.endGap path) curves.userFine.length k

/-- The center of row `k + 1` of the fine table. -/
def Overlap.center {α : Type*} (curves : Overlap α) (path : List (ℕ × ℕ)) (k : ℕ) : ℤ :=
  projected lateFrame path (curves.userCoarse.length - 1) k + curves.drifted path (k + 1)

/-- The last fine user frame is on the late knot of the last coarse one. -/
def Overlap.EndsLate {α : Type*} (curves : Overlap α) : Prop :=
  lateFrame (curves.userCoarse.length - 1) = true ∧
    curves.userFine.length = 5 * (curves.userCoarse.length - 1) + 1

/-- **The runs of a coarse path fit the refine band**: on landing on a coarse user frame, five
times the reference frames the path stays on it for, the step onto it (off it, where its knot
is late) and the drift of that row together do not exceed the width of the band; over the
first frame, half of it.  Where the user ends on a late knot, the last run is left to the drift
of all rows, and no row's step and drift may exceed it. -/
structure RunsFit {α : Type*} (curves : Overlap α) (path : List (ℕ × ℕ)) : Prop where
  first : 5 * (lastAt path 0 : ℤ) + curves.drifted path 1 ≤ refineBand + 1
  later : ∀ i, i + 1 < curves.userCoarse.length →
    landing lateFrame (i + 1) < curves.userFine.length →
    5 * ((lastAt path (i + 1) : ℤ) - firstAt path (i + 1)) +
        (if lateFrame (i + 1) then onward path (curves.userCoarse.length - 1) (i + 1)
          else onward path (curves.userCoarse.length - 1) i) +
        (curves.drifted path (landing lateFrame (i + 1) + 1) -
          curves.drifted path (landing lateFrame (i + 1))) ≤ 2 * refineBand + 1
  ending : curves.EndsLate → ∀ k, k + 1 < curves.userFine.length →
    onward path (curves.userCoarse.length - 1) (k / 5) +
      (curves.drifted path (k + 2) - curves.drifted path (k + 1)) ≤ 2 * refineBand + 1

theorem lateFrame_zero : lateFrame 0 = false :=
  (coarseStride_eq.symm ▸ nearGrid_double).lateKnot_zero

section Centers

variable {α : Type*} {curves : Overlap α} {allowed : ℕ × ℕ → Prop} {path : List (ℕ × ℕ)}
  (hpath : PathTo allowed (curves.userCoarse.length - 1, curves.referenceCoarse.length - 1) path)
  (huser : Groups curves.userCoarse curves.userFine)
  (hreference : Groups curves.referenceCoarse curves.referenceFine)
  (hN : 0 < curves.userCoarse.length) (hM : 0 < curves.referenceCoarse.length)

include hpath hreference hM

theorem Overlap.endGap_nonneg : 0 ≤ curves.endGap path := by
  have hend := projected_le hpath lateFrame_zero (curves.userFine.length - 1)
  obtain ⟨-, hm⟩ := hreference
  unfold Overlap.endGap
  dsimp only at hend
  omega

theorem Overlap.drifted_mono (k : ℕ) : curves.drifted path k ≤ curves.drifted path (k + 1) :=
  drift_mono (Overlap.endGap_nonneg hpath hreference hM) (Nat.le_succ k)

theorem Overlap.center_mono (k : ℕ) : curves.center path k ≤ curves.center path (k + 1) :=
  add_le_add (projected_mono hpath lateFrame_zero k)
    (Overlap.drifted_mono hpath hreference hM (k + 1))

theorem Overlap.center_nonneg : 0 ≤ curves.center path 0 := by
  have hdrift := Overlap.drifted_mono hpath hreference hM 0
  have hzero : curves.drifted path 0 = 0 := drift_zero _ _
  rw [hzero] at hdrift
  exact add_nonneg (projected_nonneg hpath lateFrame_zero 0) hdrift

include huser hN

/-- Elsewhere the last fine frame leaves no more than the crop does. -/
theorem Overlap.endGap_le (hlate : ¬ curves.EndsLate) : curves.endGap path ≤ 5 := by
  obtain ⟨hn', hn⟩ := huser
  obtain ⟨hm', hm⟩ := hreference
  have hlast : projected lateFrame path (curves.userCoarse.length - 1)
      (curves.userFine.length - 1) = 5 * lastAt path (curves.userCoarse.length - 1) := by
    obtain ⟨r, hr, hsplit⟩ : ∃ r, r < 5 ∧
        curves.userFine.length - 1 = 5 * (curves.userCoarse.length - 1) + r :=
      ⟨curves.userFine.length - 1 - 5 * (curves.userCoarse.length - 1), by omega, by omega⟩
    rw [hsplit, projected_between le_rfl hr fun h0 => ?_, onward, if_neg (lt_irrefl _)]
    · ring
    · by_contra hnot
      exact hlate ⟨by simpa using hnot, by omega⟩
  rw [Overlap.endGap, hlast, hpath.lastAt_last]
  dsimp only
  omega

/-- Inside a coarse frame the center never moves too far, but for a late end. -/
theorem Overlap.center_succ_le_inner {k : ℕ} (hlate : ¬ curves.EndsLate)
    (hinner : ∀ i, 0 < i → i ≤ curves.userCoarse.length - 1 → k + 1 ≠ landing lateFrame i) :
    curves.center path (k + 1) ≤ curves.center path k + (2 * refineBand + 1) := by
  have hgap := Overlap.endGap_nonneg hpath hreference hM
  have hsmall := Overlap.endGap_le hpath huser hreference hN hM hlate
  have hstep := projected_succ_inner path hinner lateFrame_zero
  have hone := (onward_range hpath (k / 5)).2
  have hpos : 0 < curves.userFine.length := by
    obtain ⟨hn', hn⟩ := huser
    omega
  have hrow := drift_succ_le hgap hpos (k + 1)
  unfold Overlap.center Overlap.drifted
  rw [refineBand_eq]
  dsimp only at hone
  omega

/-- **Runs fit exactly where no center is too far past the one before.** -/
theorem runsFit_iff : RunsFit curves path ↔ curves.center path 0 ≤ refineBand + 1 ∧
    ∀ k, k + 1 < curves.userFine.length →
      curves.center path (k + 1) ≤ curves.center path k + (2 * refineBand + 1) := by
  have hfirst : curves.center path 0 = 5 * (lastAt path 0 : ℤ) + curves.drifted path 1 := by
    rw [Overlap.center, projected_zero lateFrame_zero]
  rw [hfirst]
  constructor
  · rintro ⟨hstart, hlater, hending⟩
    refine ⟨hstart, fun k hk => ?_⟩
    by_cases hinner : ∀ i, 0 < i → i ≤ curves.userCoarse.length - 1 → k + 1 ≠ landing lateFrame i
    · by_cases hlate : curves.EndsLate
      · have hstep := projected_succ_inner path hinner lateFrame_zero
        have hrow := hending hlate k hk
        rw [show k + 2 = k + 1 + 1 from rfl] at hrow
        unfold Overlap.center
        omega
      · exact Overlap.center_succ_le_inner hpath huser hreference hN hM hlate hinner
    · simp only [ne_eq, not_forall, not_not] at hinner
      obtain ⟨i, hpos, hi, hland⟩ := hinner
      obtain ⟨i, rfl⟩ := Nat.exists_eq_add_one_of_ne_zero hpos.ne'
      have hstep := projected_succ_landing path
        (show i < curves.userCoarse.length - 1 by omega) hland
      have hrun := hlater i (by omega) (by omega)
      rw [← hland] at hrun
      unfold Overlap.center
      generalize (if lateFrame (i + 1) = true then _ else _ : ℤ) = step at hstep hrun
      omega
  · rintro ⟨hstart, hjump⟩
    refine ⟨hstart, fun i hi hland => ?_, fun _ k hk => ?_⟩
    · -- the row before the landing and the landing itself
      have hpos : 0 < landing lateFrame (i + 1) := by
        unfold landing
        split_ifs <;> omega
      obtain ⟨k, hk⟩ := Nat.exists_eq_add_one_of_ne_zero hpos.ne'
      have hrow := hjump k (by omega)
      have hstep := projected_succ_landing path
        (show i < curves.userCoarse.length - 1 by omega) hk.symm
      unfold Overlap.center at hrow
      rw [hk]
      generalize (if lateFrame (i + 1) = true then _ else _ : ℤ) = step at hstep ⊢
      omega
    · have hrow := hjump k hk
      have hstep := onward_le_projected_succ hpath lateFrame_zero k
      unfold Overlap.center at hrow
      rw [show k + 2 = k + 1 + 1 from rfl]
      dsimp only at hstep
      omega

end Centers

variable {dist : Option Hz → Option Hz → K} {user reference : List (Option Hz)} {offsetFrames : ℕ}
  {coarse : WarpingPath K}

/-- The coarse pass compares no more than a million frames. -/
theorem Overlap.coarsePass_few {curves : Overlap (Option Hz)}
    (h : curves.coarsePass dist coarseBand = .ok coarse) :
    5 * curves.userCoarse.length ≤ 1000000 ∧ curves.referenceCoarse.length ≤ 1000000 := by
  obtain ⟨hpath, -, -⟩ := Overlap.coarsePass_pathTo h
  obtain ⟨ha, hb, hguard⟩ := bandedDtw_ok_guard h
  have hN := List.length_pos_iff.mpr ha
  have hM := List.length_pos_iff.mpr hb
  have hend := hpath.allowed_last
  rw [inBand_iff, getD_diagonalCenter (by omega)] at hend
  rw [coarseBand_eq] at hguard hend
  unfold dtwMaxCells at hguard
  omega

/-- What is known of the centers of a fine pass. -/
theorem refineCenter_double {curves : Overlap (Option Hz)}
    (huser : Groups curves.userCoarse curves.userFine)
    (hreference : Groups curves.referenceCoarse curves.referenceFine)
    (h : curves.coarsePass dist coarseBand = .ok coarse) {k : ℕ}
    (hk : k < curves.userFine.length) :
    (refineCenter coarse (coarseHopDouble coarseStride) pitchHopDouble
        curves.userFine.length curves.referenceFine.length).getD (k + 1) 0 =
      curves.center coarse.pairs k := by
  obtain ⟨hpath, h1, h2⟩ := Overlap.coarsePass_pathTo h
  obtain ⟨ha, hb, -⟩ := bandedDtw_ok_guard h
  have hN := List.length_pos_iff.mpr ha
  have hM := List.length_pos_iff.mpr hb
  obtain ⟨hfew, hfew'⟩ := Overlap.coarsePass_few h
  obtain ⟨hn', hn⟩ := huser
  obtain ⟨hm', hm⟩ := hreference
  exact refineCenterBy_succ hpath h1 h2 (coarseStride_eq.symm ▸ nearGrid_double)
    (by dsimp only; omega) (by dsimp only; omega) (by omega) (by dsimp only; omega) hk

/-- **When the fine band holds a warping path.** -/
theorem exists_fine_inBandPath_iff {curves : Overlap (Option Hz)}
    (huser : Groups curves.userCoarse curves.userFine)
    (hreference : Groups curves.referenceCoarse curves.referenceFine)
    (h : curves.coarsePass dist coarseBand = .ok coarse) :
    (∃ path, InBandPath curves.userFine curves.referenceFine
        (refineCenter coarse (coarseHopDouble coarseStride) pitchHopDouble
          curves.userFine.length curves.referenceFine.length) refineBand path) ↔
      RunsFit curves coarse.pairs := by
  have hcenters := fun k (hk : k < curves.userFine.length) =>
    refineCenter_double huser hreference h hk
  obtain ⟨hpath, -, -⟩ := Overlap.coarsePass_pathTo h
  obtain ⟨ha, hb, -⟩ := bandedDtw_ok_guard h
  have hN := List.length_pos_iff.mpr ha
  have hM := List.length_pos_iff.mpr hb
  have hn := huser.2
  have hm := hreference.2
  rw [runsFit_iff hpath huser hreference hN hM]
  refine exists_inBandPath_iff (List.length_pos_iff.mp (by omega))
    (List.length_pos_iff.mp (by omega)) (by rw [refineBand_eq]; decide)
    (curves.center coarse.pairs) hcenters
    (fun k _ => Overlap.center_mono hpath hreference hM k)
    (Overlap.center_nonneg hpath hreference hM) ?_
  rw [Overlap.center, Overlap.drifted, Nat.sub_add_cancel (by omega), drift_self (by omega),
    Overlap.endGap]
  omega

variable [IsStrictOrderedRing K] in
/-- **When the refine pass fails after a coarse path.**  Once the coarse pass has returned a
path, the attempt does not raise `AlignmentFailed` if and only if the runs of that path fit
the refine band. -/
theorem attemptAlign_alignmentFailed_iff (dist : Option Hz → Option Hz → K)
    (user reference : List (Option Hz)) (offsetFrames : ℕ) (coarse : WarpingPath K)
    (h : (overlap user reference offsetFrames coarseStride coarseBand).coarsePass dist coarseBand
      = .ok coarse) :
    (¬ ∃ e, attemptAlign dist user reference offsetFrames coarseStride coarseBand refineBand
        = .error e ∧ e.errorClass = .alignmentFailed) ↔
      RunsFit (overlap user reference offsetFrames coarseStride coarseBand) coarse.pairs := by
  obtain ⟨huser, hreference⟩ := overlap_groups user reference offsetFrames coarseBand
  rw [← coarseStride_eq] at huser hreference
  rw [attemptAlign_eq, h]
  generalize overlap user reference offsetFrames coarseStride coarseBand = curves at *
  rw [← exists_fine_inBandPath_iff huser hreference h, ← not_not (a := ∃ path, InBandPath _ _ _ _ path)]
  obtain ⟨ha, hb, hguard⟩ := bandedDtw_ok_guard h
  have hN := List.length_pos_iff.mpr ha
  have hM := List.length_pos_iff.mpr hb
  obtain ⟨hn', hn⟩ := huser
  obtain ⟨hm', hm⟩ := hreference
  -- the table of the fine pass is smaller than that of the coarse one was allowed to be
  have hfine : (curves.userFine.length + 1) * (2 * refineBand + 1) ≤ dtwMaxCells := by
    rw [coarseBand_eq] at hguard
    rw [refineBand_eq]
    unfold dtwMaxCells at hguard ⊢
    omega
  have hzero : (refineCenter coarse (coarseHopDouble coarseStride) pitchHopDouble
      curves.userFine.length curves.referenceFine.length).getD 0 0 = 0 :=
    refineCenterBy_zero _ _ _ _ _ _ (by omega)
  rw [← bandedDtw_alignmentFailed_iff dist hzero
    (List.length_pos_iff.mp (by omega)) (List.length_pos_iff.mp (by omega)) hfine]
  refine not_congr (exists_congr fun e => and_congr_left fun _ => ?_)
  -- the attempt fails exactly when its fine pass does
  show (curves.finePass dist coarseStride refineBand coarse).bind _ = .error e ↔
    curves.finePass dist coarseStride refineBand coarse = .error e
  cases curves.finePass dist coarseStride refineBand coarse with
  | error e' =>
    show Except.error e' = Except.error e ↔ _
    rw [Except.error.injEq, Except.error.injEq]
  | ok fine => exact iff_of_false nofun nofun

end Runs

/-! ## A rest held longer in the reference

One coarse frame of rest and one sung, against eleven frames of rest and one sung: the coarse
path is free of cost, and the refine band loses it on the sung frame. -/

def shortRestHz : List (Option ℚ) := List.replicate 5 none ++ List.replicate 5 (some 220)

def longRestHz : List (Option ℚ) := List.replicate 55 none ++ List.replicate 5 (some 220)

def longRestCoarse : WarpingPath ℚ where
  index1 := List.replicate 11 0 ++ [1]
  index2 := List.range 12
  normalizedDistance := 0

theorem coarsePass_longRest :
    (overlap shortRestHz longRestHz 0 coarseStride coarseBand).coarsePass voicingDistance coarseBand
      = .ok longRestCoarse := by
  decide +kernel

theorem attemptAlign_alignmentFailed_iff_longRest :
    (¬ ∃ e, attemptAlign voicingDistance shortRestHz longRestHz 0 coarseStride coarseBand refineBand
        = .error e ∧ e.errorClass = .alignmentFailed) ↔
      RunsFit (overlap shortRestHz longRestHz 0 coarseStride coarseBand) longRestCoarse.pairs :=
  attemptAlign_alignmentFailed_iff voicingDistance shortRestHz longRestHz 0 longRestCoarse
    coarsePass_longRest

theorem not_forall_refines :
    ¬ ∀ (user reference : List (Option ℚ)) (offsetFrames : ℕ) (coarse : WarpingPath ℚ),
      (overlap user reference offsetFrames coarseStride coarseBand).coarsePass voicingDistance
        coarseBand = .ok coarse →
      ¬ ∃ e, attemptAlign voicingDistance user reference offsetFrames coarseStride coarseBand
        refineBand = .error e ∧ e.errorClass = .alignmentFailed := by
  intro h
  have hfails : (attemptAlign voicingDistance shortRestHz longRestHz 0 coarseStride coarseBand
      refineBand).map (fun _ => ()) = .error .noWarpingPath := by decide +kernel
  apply h shortRestHz longRestHz 0 longRestCoarse coarsePass_longRest
  cases hattempt : attemptAlign voicingDistance shortRestHz longRestHz 0 coarseStride coarseBand
      refineBand with
  | error e =>
    rw [hattempt] at hfails
    cases hfails
    exact ⟨_, rfl, rfl⟩
  | ok attempt =>
    rw [hattempt] at hfails
    cases hfails

end VocalCoach
