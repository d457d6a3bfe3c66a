/-
# A take that follows the reference

What the align stage returns for a recording that is sung frame by frame as the reference
is, up to frames at distance zero (another octave, for one).

The costs are nowhere negative, so a cell of the diagonal costs nothing and is entered from
the diagonal: of the three comparisons only a strictly cheaper one replaces the first
(`cellFor_diagonal`).  Both passes return the diagonal (`bandedDtw_diagonal`), as the band
the coarse one leaves for the fine one stays within five frames of it
(`refineCenter_diagonal`).

`alignStageRun_octaves` is the result for the embedded curves.  `alignStageRun_lateStart_located`
is the other way an exact rendition is accepted: at a later start of the reference, when the
scan singles it out.
-/
import VocalCoach.CoarsePass
import VocalCoach.RefineBand

namespace VocalCoach

open Interpolation LatticePath

/-! ## The diagonal of the table -/

section Diagonal

variable {α K : Type*} [Field K] [LinearOrder K] [IsStrictOrderedRing K] {dist : α → α → K}
  {a b : List α} {fullCenter : List ℤ} {band : ℕ}

/-- Frame by frame, nothing between the two. -/
def Follow (dist : α → α → K) (a b : List α) : Prop :=
  List.Forall₂ (fun x y => dist x y = 0) a b

omit [LinearOrder K] [IsStrictOrderedRing K] in
theorem Follow.frameCost_eq (h : Follow dist a b) (i : ℕ) : frameCost dist a b (i, i) = 0 := by
  unfold frameCost
  dsimp only
  induction h generalizing i with
  | nil => rfl
  | cons hxy _ ih =>
    cases i with
    | zero => exact hxy
    | succ i => exact ih i

/-- No cell is below zero. -/
theorem cellFor_nonneg (hdist : ∀ x y, 0 ≤ dist x y) (hzero : fullCenter.getD 0 0 = 0) (i j : ℕ) :
    0 ≤ (cellFor dist a b fullCenter band i j).cost := by
  induction i generalizing j with
  | zero =>
    cases j with
    | zero => rw [cellFor_zero_zero hzero]
    | succ j =>
      rw [cellFor_zero_succ hzero]
      exact le_top
  | succ i ihi =>
    induction j with
    | zero =>
      rw [cellFor_succ_zero]
      exact le_top
    | succ j ihj =>
      by_cases hin : InTable a b fullCenter band (i, j)
      · have hcost : (0 : K) ≤ frameCost dist a b (i, j) := by
          obtain ⟨hi, hj, -⟩ := hin
          simp only [frameCost, List.getElem?_eq_getElem hi, List.getElem?_eq_getElem hj]
          exact hdist _ _
        have hrec : cellFor dist a b fullCenter band (i + 1) (j + 1) = _ := cellFor_inTable hin
        dsimp only at hrec
        rw [hrec]
        dsimp only
        rw [bestPredecessor_cost]
        apply add_nonneg
        · exact_mod_cast hcost
        · exact le_min (le_min (ihi j) (ihi (j + 1))) ihj
      · rw [cellFor_eq_empty hin]
        exact le_top

omit [IsStrictOrderedRing K] in
/-- A free diagonal is taken: the other two are not strictly cheaper. -/
theorem bestPredecessor_zero {up left : WithTop K} (hup : 0 ≤ up) (hleft : 0 ≤ left) :
    bestPredecessor 0 up left = ⟨0, .diagonal⟩ := by
  unfold bestPredecessor
  simp [Cell.empty, not_lt.mpr hup, not_lt.mpr hleft]

/-- **A followed diagonal costs nothing** and is entered from the diagonal. -/
theorem cellFor_diagonal (hdist : ∀ x y, 0 ≤ dist x y) (hzero : fullCenter.getD 0 0 = 0)
    (hfollow : Follow dist a b)
    (hband : ∀ i, i < a.length → InBand fullCenter band (i + 1) (i + 1)) {i : ℕ}
    (hi : i < a.length) :
    cellFor dist a b fullCenter band (i + 1) (i + 1) = ⟨0, .diagonal⟩ := by
  induction i with
  | zero =>
    have hin : InTable a b fullCenter band (0, 0) := ⟨hi, hfollow.length_eq ▸ hi, hband 0 hi⟩
    have hrec : cellFor dist a b fullCenter band (0 + 1) (0 + 1) = _ := cellFor_inTable hin
    dsimp only at hrec
    rw [hrec, cellFor_zero_zero hzero, bestPredecessor_zero (cellFor_nonneg hdist hzero _ _)
      (cellFor_nonneg hdist hzero _ _), hfollow.frameCost_eq]
    simp
  | succ i ih =>
    have hin : InTable a b fullCenter band (i + 1, i + 1) :=
      ⟨hi, hfollow.length_eq ▸ hi, hband (i + 1) hi⟩
    have hrec : cellFor dist a b fullCenter band (i + 1 + 1) (i + 1 + 1) = _ :=
      cellFor_inTable hin
    dsimp only at hrec
    rw [hrec, ih (by omega), bestPredecessor_zero (cellFor_nonneg hdist hzero _ _)
      (cellFor_nonneg hdist hzero _ _), hfollow.frameCost_eq]
    simp

/-- The pairs `(i, i)`. -/
def identityPath (n : ℕ) : List (ℕ × ℕ) := (List.range n).map fun i => (i, i)

theorem identityPath_succ (n : ℕ) : identityPath (n + 1) = identityPath n ++ [(n, n)] := by
  simp [identityPath, List.range_succ]

/-- A table that points down the diagonal is backtracked along it. -/
theorem backtrackFrom_diagonal (direction : ℕ → ℕ → Direction) (n fuel : ℕ) (hfuel : n ≤ fuel)
    (pairs : List (ℕ × ℕ)) (h : ∀ i, i < n → direction (i + 1) (i + 1) = .diagonal) :
    backtrackFrom direction fuel n n pairs = identityPath n ++ pairs := by
  induction n generalizing fuel pairs with
  | zero => cases fuel <;> rfl
  | succ n ih =>
    obtain ⟨fuel, rfl⟩ := Nat.exists_eq_succ_of_ne_zero (show fuel ≠ 0 by omega)
    rw [backtrackFrom, if_pos ⟨Nat.succ_pos n, Nat.succ_pos n⟩, h n (Nat.lt_succ_self n)]
    show backtrackFrom direction fuel n n ((n, n) :: pairs) = _
    rw [ih fuel (by omega) _ fun i hi => h i (by omega), identityPath_succ, List.append_cons]

/-- **`banded_dtw` returns the diagonal** of two sequences that follow each other, at no
distance. -/
theorem bandedDtw_diagonal (hdist : ∀ x y, 0 ≤ dist x y) (hzero : fullCenter.getD 0 0 = 0)
    (ha : a ≠ []) (hfollow : Follow dist a b)
    (hguard : (a.length + 1) * (2 * band + 1) ≤ dtwMaxCells)
    (hband : ∀ i, i < a.length → InBand fullCenter band (i + 1) (i + 1)) :
    bandedDtw dist a b band (some fullCenter) =
      .ok ⟨List.range a.length, List.range a.length, 0⟩ := by
  have hn := List.length_pos_iff.mpr ha
  have hlength := hfollow.length_eq
  have hb : b ≠ [] := List.length_pos_iff.mp (hlength ▸ hn)
  -- the end of the table is free
  have hend : cellCost dist a b fullCenter band (a.length - 1, b.length - 1) = ((0 : K) : WithTop K) := by
    rw [cellCost, ← hlength]
    dsimp only
    rw [cellFor_diagonal hdist hzero hfollow hband (show a.length - 1 < a.length by omega)]
    rfl
  have hpairs : backtrack (directionAt dist a b fullCenter band) a.length b.length =
      identityPath a.length := by
    rw [backtrack, ← hlength, backtrackFrom_diagonal _ _ _ (Nat.le_add_right _ _), List.append_nil]
    intro i hi
    rw [directionAt_eq, cellFor_diagonal hdist hzero hfollow hband hi]
  obtain ⟨result, hresult, h1, h2, hmean⟩ := (bandedDtw_eq dist fullCenter band ha hb hguard).2 0 hend
  rw [hpairs] at h1 h2 hmean
  rw [hresult]
  obtain ⟨index1, index2, normalizedDistance⟩ := result
  simp only [identityPath, List.map_map, Function.comp_def, List.map_id', zero_div] at h1 h2 hmean
  rw [h1, h2, hmean]

end Diagonal

/-! ## The band around a diagonal coarse path -/

theorem isPath_identityPath (n : ℕ) : IsPath (identityPath n) := by
  induction n with
  | zero => exact List.isChain_nil
  | succ n ih =>
    rw [identityPath_succ]
    refine List.isChain_append.mpr ⟨ih, List.isChain_singleton _, fun q hq p hp => ?_⟩
    obtain rfl : (n, n) = p := by simpa using hp
    cases n with
    | zero => cases hq
    | succ n =>
      rw [identityPath_succ, List.getLast?_concat] at hq
      obtain rfl : (n, n) = q := by simpa using hq
      exact Or.inl rfl

theorem pathTo_identityPath (n : ℕ) :
    PathTo (fun _ => True) (n, n) (identityPath (n + 1)) := by
  refine ⟨isPath_identityPath _, ?_, ?_, fun _ _ => trivial⟩
  · simp [identityPath, List.range_succ_eq_map]
  · rw [identityPath_succ, List.getLast?_concat]

theorem fiber_identityPath {n i : ℕ} (h : i < n) : fiber (identityPath n) i = [i] := by
  induction n with
  | zero => exact absurd h (Nat.not_lt_zero i)
  | succ n ih =>
    rw [identityPath_succ, fiber_append]
    by_cases hi : i = n
    · subst hi
      have hbefore : fiber (identityPath i) i = [] := by
        simp only [fiber, identityPath, List.map_eq_nil_iff, List.filter_eq_nil_iff, List.mem_map,
          List.mem_range]
        rintro _ ⟨j, hj, rfl⟩
        simpa using hj.ne
      rw [hbefore]
      simp [fiber]
    · rw [ih (by omega)]
      simp [fiber, Ne.symm hi]

theorem firstAt_identityPath {n i : ℕ} (hi : i < n) : firstAt (identityPath n) i = i := by
  rw [firstAt, fiber_identityPath hi]
  rfl

theorem lastAt_identityPath {n i : ℕ} (hi : i < n) : lastAt (identityPath n) i = i := by
  rw [lastAt, fiber_identityPath hi]
  rfl

/-- On the fine grid a diagonal coarse path is the diagonal, up to its last frame; late knots
make no difference. -/
theorem projected_identityPath (late : ℕ → Bool) {n : ℕ} (k : ℕ) :
    projected late (identityPath (n + 1)) n k = if k / 5 < n then (k : ℤ) else 5 * n := by
  unfold projected
  by_cases hk : k / 5 < n
  · rw [if_pos hk, if_pos hk, firstAt_identityPath (show k / 5 < n + 1 by omega),
      lastAt_identityPath (show k / 5 < n + 1 by omega),
      firstAt_identityPath (show k / 5 + 1 < n + 1 by omega)]
    push_cast
    split_ifs <;> omega
  · rw [if_neg hk, if_neg hk, lastAt_identityPath (Nat.lt_succ_self n)]
    split_ifs with hlate
    · rw [firstAt_identityPath (show k / 5 < n + 1 by omega)]
      omega
    · rfl

/-- **The refine band around it** leaves the diagonal in. -/
theorem refineCenter_diagonal {K : Type*} {coarse : WarpingPath K} {n k : ℕ}
    (h1 : coarse.index1 = List.range ((n + 4) / 5)) (h2 : coarse.index2 = List.range ((n + 4) / 5))
    (hn : n ≤ 1000000) (hk : k < n) :
    InBand (refineCenter coarse (coarseHopDouble 5) pitchHopDouble n n) 20 (k + 1) (k + 1) := by
  obtain ⟨m, hm⟩ := Nat.exists_eq_succ_of_ne_zero (show (n + 4) / 5 ≠ 0 by omega)
  have hmap : ∀ l : List ℕ, l = List.range ((n + 4) / 5) →
      l = (identityPath (m + 1)).map Prod.fst ∧ l = (identityPath (m + 1)).map Prod.snd := by
    rintro l rfl
    simp [identityPath, Function.comp_def, hm]
  have hcenter := refineCenterBy_succ (m := n) (pathTo_identityPath m) (hmap _ h1).1
    (hmap _ h2).2 nearGrid_double (by dsimp only; omega) (by dsimp only; omega) hn
    (by dsimp only; omega) hk
  rw [projected_identityPath, projected_identityPath, if_neg (show ¬ (n - 1) / 5 < m by omega)]
    at hcenter
  have hgap : (0 : ℤ) ≤ n - 5 * m := by omega
  rw [inBand_iff, refineCenter, hcenter]
  -- the end gap is at most five frames, and so is its share
  have hlow : drift (n - 5 * m) n 0 ≤ drift (n - 5 * m) n (k + 1) :=
    drift_mono hgap (Nat.zero_le _)
  have hhigh : drift (n - 5 * m) n (k + 1) ≤ drift (n - 5 * m) n n := drift_mono hgap (by omega)
  rw [drift_zero] at hlow
  rw [drift_self (by omega)] at hhigh
  push_cast
  split_ifs <;> omega

/-! ## One attempt -/

section Attempt

variable {Hz K : Type*} [Field K] [LinearOrder K] [IsStrictOrderedRing K]
  {dist : Option Hz → Option Hz → K} {user reference : List (Option Hz)}

omit [LinearOrder K] [IsStrictOrderedRing K] in
theorem Follow.strided {α : Type*} {dist : α → α → K} {a b : List α} (h : Follow dist a b)
    (stride : ℕ) : Follow dist (strided a stride) (strided b stride) := by
  unfold VocalCoach.strided
  rw [h.length_eq]
  generalize (b.length + stride - 1) / stride = n
  have hget : ∀ i : ℕ, Option.Rel (fun x y => dist x y = 0) a[i]? b[i]? := by
    intro i
    induction h generalizing i with
    | nil => exact .none
    | cons hxy _ ih =>
      cases i with
      | zero => exact .some hxy
      | succ i => simpa using ih i
  induction n with
  | zero => exact .nil
  | succ n ih =>
    rw [List.range_succ, List.filterMap_append, List.filterMap_append]
    refine List.rel_append ih ?_
    have hlast := hget (n * stride)
    simp only [List.filterMap_cons, List.filterMap_nil]
    generalize a[n * stride]? = x at hlast
    generalize b[n * stride]? = y at hlast
    cases hlast with
    | none => exact .nil
    | some hxy => exact .cons hxy .nil

/-- The guard on the size of both tables, that of the coarse one: under it the fine one has
at most half as many cells. -/
def FitsTables (frames : ℕ) : Prop :=
  ((frames + 4) / 5 + 1) * (2 * coarseBand + 1) ≤ dtwMaxCells

instance (frames : ℕ) : Decidable (FitsTables frames) := inferInstanceAs (Decidable (_ ≤ _))

/-- An hour and forty minutes. -/
theorem fitsTables_iff (frames : ℕ) : FitsTables frames ↔ frames ≤ 623435 := by
  rw [FitsTables, coarseBand_eq, dtwMaxCells]
  omega

omit [Field K] [LinearOrder K] [IsStrictOrderedRing K] in
/-- Nothing is cropped of sequences that are equally long. -/
theorem cropToOverlap_follow {α : Type*} {a b : List α} (h : a.length = b.length) (band : ℕ) :
    cropToOverlap a b band = (a, b, false) := by
  unfold cropToOverlap
  dsimp only
  rw [if_pos (by omega)]

/-- In the band around the diagonal, which is the default. -/
theorem bandedDtw_default {α : Type*} {dist : α → α → K} {a b : List α} {band : ℕ}
    (hdist : ∀ x y, 0 ≤ dist x y) (ha : a ≠ []) (hfollow : Follow dist a b)
    (hguard : (a.length + 1) * (2 * band + 1) ≤ dtwMaxCells) :
    bandedDtw dist a b band none = .ok ⟨List.range a.length, List.range a.length, 0⟩ := by
  have hdefault : bandedDtw dist a b band none =
      bandedDtw dist a b band (some (diagonalCenter a.length)) := rfl
  rw [hdefault]
  refine bandedDtw_diagonal hdist (getD_diagonalCenter (Nat.zero_le _)) ha hfollow hguard
    fun i hi => ?_
  rw [inBand_iff, getD_diagonalCenter (show i + 1 ≤ _ by omega)]
  push_cast
  omega

/-- **An attempt on two curves that follow each other** returns the diagonal twice. -/
theorem attemptAlign_follow (hdist : ∀ x y, 0 ≤ dist x y) {k : ℕ}
    (hfollow : Follow dist user (reference.drop k)) (huser : user ≠ [])
    (hfits : FitsTables user.length) :
    attemptAlign dist user reference k coarseStride coarseBand refineBand =
      .ok ⟨⟨List.range user.length, List.range user.length, 0⟩,
        ⟨List.range ((user.length + 4) / 5), List.range ((user.length + 4) / 5), 0⟩, false⟩ := by
  have hn := List.length_pos_iff.mpr huser
  have hlength := hfollow.length_eq
  have hlong := (fitsTables_iff _).mp hfits
  have hcoarse := hfollow.strided 5
  have hcoarseLength := length_strided user (show 0 < 5 by decide)
  have hcoarseLength' : (VocalCoach.strided user 5).length = (user.length + 4) / 5 := by
    rw [hcoarseLength]
    omega
  have hnonempty : VocalCoach.strided user 5 ≠ [] := by
    rw [← List.length_pos_iff, hcoarseLength']
    omega
  have hcrop := cropToOverlap_follow hcoarse.length_eq 200
  have hfirst : bandedDtw dist (VocalCoach.strided user 5)
      (VocalCoach.strided (reference.drop k) 5) 200 none =
      .ok ⟨List.range ((user.length + 4) / 5), List.range ((user.length + 4) / 5), 0⟩ := by
    rw [bandedDtw_default hdist hnonempty hcoarse, hcoarseLength']
    rw [hcoarseLength', dtwMaxCells]
    omega
  have hsecond : bandedDtw dist user (reference.drop k) 20
      (some (refineCenter ⟨List.range ((user.length + 4) / 5),
        List.range ((user.length + 4) / 5), (0 : K)⟩ (coarseHopDouble 5) pitchHopDouble
        user.length (reference.drop k).length)) =
      .ok ⟨List.range user.length, List.range user.length, 0⟩ := by
    rw [← hlength]
    refine bandedDtw_diagonal hdist (refineCenterBy_zero _ _ _ _ _ _ hn) huser hfollow ?_
      fun i hi => ?_
    · rw [dtwMaxCells]
      omega
    · exact refineCenter_diagonal rfl rfl (by omega) hi
  rw [coarseStride_eq, coarseBand_eq, refineBand_eq]
  unfold attemptAlign
  dsimp only
  rw [hcrop]
  dsimp only
  rw [hfirst]
  simp only [Bool.false_eq_true, if_false, bind, Except.bind, hsecond]
  rfl

omit [IsStrictOrderedRing K] in
theorem ne_nil_of_voiced (hvoiced : minVoicedFraction ≤ voicedFraction user) : user ≠ [] := by
  rintro rfl
  have hpos : (0 : ℚ) < minVoicedFraction := by decide +kernel
  exact absurd hvoiced (not_le.mpr hpos)

theorem withinCeiling_zero {attempt : AlignAttempt K} (h : attempt.fine.normalizedDistance = 0) :
    withinCeiling attempt := by
  have hceiling : (0 : ℚ) ≤ alignPitchMaxNormalizedDistance := by decide +kernel
  rw [withinCeiling, h]
  exact_mod_cast hceiling

/-- What the stage stores for a diagonal accepted at frame `k` of the reference. -/
def AlignData.diagonal (user : List (Option Hz)) (k : ℕ) : AlignData Hz K where
  index1 := List.range user.length
  index2 := List.range user.length
  hopSeconds := pitchHopSeconds
  normalizedDistance := 0
  coarseNormalizedDistance := 0
  lengthMismatch := false
  referenceStartOffsetSeconds := k * pitchHopSeconds
  userPitchCurve := user

/-- A recording that follows the reference from its start is accepted at once. -/
theorem alignStageRun_follow (argsort : List (WithTop K) → List ℕ) (hdist : ∀ x y, 0 ≤ dist x y)
    (hfollow : Follow dist user reference)
    (hvoiced : minVoicedFraction ≤ voicedFraction user) (hfits : FitsTables user.length) :
    alignStageRun dist argsort user reference = .ok (.diagonal user 0) := by
  have hattempt := attemptAlign_follow (k := 0) hdist hfollow (ne_nil_of_voiced hvoiced) hfits
  rw [alignStageRun, if_neg (not_lt.mpr hvoiced), directAttempt, hattempt]
  dsimp only
  rw [if_pos (withinCeiling_zero rfl)]
  rfl

end Attempt

/-! ## The time axis of a diagonal -/

theorem interp_scaled_identityPath {hop : ℚ} {n : ℕ} {t : ℚ} (hlow : 0 ≤ t)
    (hhigh : t ≤ n * hop) : interp t (scaled hop (identityPath (n + 1))) = t := by
  have hends := pathTo_identityPath n
  have hfirst : (scaled hop (identityPath (n + 1))).head? =
      some (((0 : ℕ) : ℚ) * hop, ((0 : ℕ) : ℚ) * hop) := by
    rw [scaled, List.head?_map, hends.head]
    rfl
  have hlast : (scaled hop (identityPath (n + 1))).getLast? = some (n * hop, n * hop) := by
    rw [scaled, List.getLast?_map, hends.last]
    rfl
  refine interp_identity ?_ hfirst hlast (by simpa using hlow) hhigh
  intro p hp
  obtain ⟨q, hq, rfl⟩ := List.mem_map.mp hp
  obtain ⟨i, -, rfl⟩ := List.mem_map.mp hq
  rfl

/-- **Both directions of the time map are the identity** as far as the frames go. -/
theorem timeMap_diagonal {Hz K : Type*} [Field K] {user : List (Option Hz)} {k : ℕ} {t : ℚ}
    (hlow : 0 ≤ t) (hhigh : t ≤ (user.length - 1 : ℕ) * pitchHopSeconds) (huser : user ≠ []) :
    (AlignData.diagonal user k : AlignData Hz K).timeMap.userToReference t = t ∧
      (AlignData.diagonal user k : AlignData Hz K).timeMap.referenceToUser t = t := by
  obtain ⟨n, hn⟩ := Nat.exists_eq_succ_of_ne_zero (List.length_pos_iff.mpr huser).ne'
  rw [hn, Nat.succ_sub_one] at hhigh
  have hfst : List.range (n + 1) = (identityPath (n + 1)).map Prod.fst := by
    simp [identityPath, Function.comp_def]
  have hsnd : List.range (n + 1) = (identityPath (n + 1)).map Prod.snd := by
    simp [identityPath, Function.comp_def]
  have hswap : (identityPath (n + 1)).map Prod.swap = identityPath (n + 1) := by
    simp [identityPath, Function.comp_def]
  have hmap : (AlignData.diagonal user k : AlignData Hz K).timeMap =
      .fromWarpingPath ((identityPath (n + 1)).map Prod.fst) ((identityPath (n + 1)).map Prod.snd)
        pitchHopSeconds := by
    rw [← hfst, ← hsnd, AlignData.timeMap, AlignData.diagonal, hn]
  rw [hmap, TimeMap.userToReference, TimeMap.referenceToUser, TimeMap.knots_fromWarpingPath,
    TimeMap.inverseKnots_fromWarpingPath, hswap]
  exact ⟨interp_scaled_identityPath hlow hhigh, interp_scaled_identityPath hlow hhigh⟩

/-- Every frame is compared with the reference frame of the same number. -/
theorem comparedFrame_diagonal {Hz K : Type*} [Field K] {user : List (Option Hz)} {k i : ℕ}
    (hi : i < user.length) : (AlignData.diagonal user k : AlignData Hz K).comparedFrame i = i := by
  have huser : user ≠ [] := List.length_pos_iff.mp (by omega)
  have hpos := pitchHopSeconds_pos
  have htime : (i : ℚ) * pitchHopSeconds ≤ (user.length - 1 : ℕ) * pitchHopSeconds :=
    mul_le_mul_of_nonneg_right (by exact_mod_cast (by omega : i ≤ user.length - 1)) hpos.le
  rw [AlignData.comparedFrame, TimeMap.referenceIndex,
    (timeMap_diagonal (mul_nonneg (Nat.cast_nonneg i) hpos.le) htime huser).1,
    mul_div_cancel_right₀ _ hpos.ne', roundHalfEven_natCast]

/-! ## Another octave -/

/-- The same pitch class: both frames unvoiced, or a whole number of octaves between them. -/
inductive OctavesApart : Option ℝ → Option ℝ → Prop
  | unvoiced : OctavesApart none none
  | voiced (value : ℝ) (octaves : ℤ) (h : 0 < value) :
      OctavesApart (some (2 ^ octaves * value)) (some value)

theorem embedPitch_octave {value : ℝ} (h : 0 < value) (octaves : ℤ) :
    embedPitch (some (2 ^ octaves * value)) = embedPitch (some value) := by
  have hpow : (0 : ℝ) < 2 ^ octaves := zpow_pos (by norm_num) octaves
  have hmin : (0 : ℝ) < (pitchFminHz : ℝ) := by norm_num [pitchFminHz]
  have hclass : Int.fract (Real.logb 2 (2 ^ octaves * value / (pitchFminHz : ℝ))) =
      Int.fract (Real.logb 2 (value / (pitchFminHz : ℝ))) := by
    rw [mul_div_assoc, Real.logb_mul hpow.ne' (div_pos h hmin).ne', ← Real.rpow_intCast,
      Real.logb_rpow (by norm_num) (by norm_num), Int.fract_intCast_add]
  simp only [embedPitch, if_neg (not_le.mpr h), if_neg (not_le.mpr (mul_pos hpow h)), hclass]

theorem OctavesApart.embeddingDistance_eq {x y : Option ℝ} (h : OctavesApart x y) :
    embeddingDistance x y = 0 := by
  cases h with
  | unvoiced => exact embeddingDistance_self none
  | voiced value octaves hpos =>
    rw [embeddingDistance, embedPitch_octave hpos]
    simp

/-- **The octave does not matter to the alignment.**  A recording whose frames are those of
the reference, each up or down by any whole number of octaves, is aligned with it frame by
frame at distance zero: the later stages compare user frame `i` with reference frame `i`, and
the time map between the two is the identity. -/
theorem alignStageRun_octaves (argsort : List (WithTop ℝ) → List ℕ)
    (user reference : List (Option ℝ)) (hoctaves : List.Forall₂ OctavesApart user reference)
    (hvoiced : minVoicedFraction ≤ voicedFraction user) (hfits : FitsTables user.length) :
    ∃ data, alignStageRun embeddingDistance argsort user reference = .ok data ∧
      data.index1 = List.range user.length ∧ data.index2 = List.range user.length ∧
      data.normalizedDistance = 0 ∧ data.coarseNormalizedDistance = 0 ∧
      data.lengthMismatch = false ∧ data.referenceStartOffsetSeconds = 0 ∧
      (∀ i < user.length, data.comparedFrame i = i) ∧
      ∀ t, 0 ≤ t → t ≤ (user.length - 1 : ℕ) * pitchHopSeconds →
        data.timeMap.userToReference t = t ∧ data.timeMap.referenceToUser t = t := by
  have hfollow : Follow embeddingDistance user reference :=
    hoctaves.imp fun _ _ h => h.embeddingDistance_eq
  refine ⟨.diagonal user 0, alignStageRun_follow argsort (fun _ _ => Real.sqrt_nonneg _) hfollow
    hvoiced hfits, rfl, rfl, rfl, rfl, rfl, ?_, fun i hi => comparedFrame_diagonal hi,
    fun t hlow hhigh => timeMap_diagonal hlow hhigh (ne_nil_of_voiced hvoiced)⟩
  show ((0 : ℕ) : ℚ) * pitchHopSeconds = 0
  simp

/-- A silent frame and one sung an octave up. -/
theorem alignStageRun_octaves_twoFrames :
    ∃ data, alignStageRun embeddingDistance (fun _ => []) [none, some (2 ^ (1 : ℤ) * 220)]
        [none, some 220] = .ok data ∧
      data.index1 = [0, 1] ∧ data.index2 = [0, 1] ∧ data.normalizedDistance = 0 := by
  obtain ⟨data, hrun, h1, h2, hmean, -⟩ := alignStageRun_octaves (fun _ => [])
    [none, some (2 ^ (1 : ℤ) * 220)] [none, some 220]
    (.cons .unvoiced (.cons (.voiced 220 1 (by norm_num)) .nil))
    (by norm_num [minVoicedFraction, voicedFraction]) (by rw [fitsTables_iff]; decide)
  exact ⟨data, hrun, h1, h2, hmean⟩

/-! ## A later start -/

section LateStart

variable {Hz K : Type*} [Field K] [LinearOrder K] [IsStrictOrderedRing K]
  {dist : Option Hz → Option Hz → K} {user reference : List (Option Hz)}

/-- What `np.argsort` promises: the positions, by rising value. -/
structure Sorts (argsort : List (WithTop K) → List ℕ) : Prop where
  positions : ∀ scores, (argsort scores).Perm (List.range scores.length)
  rising : ∀ scores, (argsort scores).Pairwise fun i j => scores.getD i ⊤ ≤ scores.getD j ⊤

omit [Field K] [IsStrictOrderedRing K] in
/-- A strict minimum comes first. -/
theorem Sorts.head_eq {argsort : List (WithTop K) → List ℕ} (h : Sorts argsort)
    {scores : List (WithTop K)} {k : ℕ} (hk : k < scores.length)
    (hleast : ∀ j, j < scores.length → j ≠ k → scores.getD k ⊤ < scores.getD j ⊤) :
    ∃ rest, argsort scores = k :: rest := by
  have hmem : k ∈ argsort scores := (h.positions scores).mem_iff.mpr (List.mem_range.mpr hk)
  cases hlist : argsort scores with
  | nil =>
    rw [hlist] at hmem
    cases hmem
  | cons first rest =>
    have hfirst : first < scores.length :=
      List.mem_range.mp ((h.positions scores).mem_iff.mp (hlist ▸ List.mem_cons_self))
    have hrising := h.rising scores
    rw [hlist] at hmem hrising
    by_cases heq : first = k
    · exact ⟨rest, by rw [heq]⟩
    · have hrest : k ∈ rest := (List.mem_cons.mp hmem).resolve_left (Ne.symm heq)
      exact absurd ((List.pairwise_cons.mp hrising).1 k hrest) (not_le.mpr (hleast first hfirst heq))

/-- A start whose overlap with the recording is free. -/
def FreeStart (dist : Option Hz → Option Hz → K) (user reference : List (Option Hz)) (j : ℕ) :
    Prop :=
  ∀ pair ∈ user.zip (reference.drop j), dist pair.1 pair.2 = 0

/-- The score of a start with frames to compare is never negative, and zero for a free one. -/
theorem startOffsetScore_eq (hdist : ∀ x y, 0 ≤ dist x y) (huser : user ≠ []) {j : ℕ}
    (hj : j < reference.length) :
    ∃ score : K, startOffsetScore dist user reference j = score ∧ 0 ≤ score ∧
      (score = 0 ↔ FreeStart dist user reference j) := by
  have hpos : 0 < (user.zip (reference.drop j)).length := by
    have hn := List.length_pos_iff.mpr huser
    rw [List.length_zip, List.length_drop]
    omega
  have hnonneg : ∀ c ∈ (user.zip (reference.drop j)).map fun pair => dist pair.1 pair.2, 0 ≤ c := by
    intro c hc
    obtain ⟨pair, -, rfl⟩ := List.mem_map.mp hc
    exact hdist _ _
  have hlength : (0 : K) < (user.zip (reference.drop j)).length := by exact_mod_cast hpos
  refine ⟨_, ?_, div_nonneg (List.sum_nonneg hnonneg) hlength.le, ?_⟩
  · unfold startOffsetScore
    dsimp only
    rw [List.length_map, if_neg hpos.ne']
  · rw [div_eq_zero_iff, or_iff_left hlength.ne', FreeStart]
    constructor
    · intro hsum pair hpair
      exact List.all_zero_of_le_zero_le_of_sum_eq_zero hnonneg hsum
        (List.mem_map_of_mem (f := fun pair => dist pair.1 pair.2) hpair)
    · intro hfree
      refine List.sum_eq_zero fun c hc => ?_
      obtain ⟨pair, hpair, rfl⟩ := List.mem_map.mp hc
      exact hfree pair hpair

omit [LinearOrder K] [IsStrictOrderedRing K] in
theorem Follow.freeStart {k : ℕ} (h : Follow dist user (reference.drop k)) :
    FreeStart dist user reference k :=
  fun _ hpair => (List.forall₂_iff_zip.mp h).2 hpair

omit [LinearOrder K] [IsStrictOrderedRing K] in
/-- The starts up to frame `last` are scored, in order. -/
theorem locateStartOffsetScores_eq (last : ℕ) :
    locateStartOffsetScores dist user reference last =
      (List.range (last + 1)).map (startOffsetScore dist user reference) := by
  rw [locateStartOffsetScores, if_neg (by omega), Int.toNat_natCast]

omit [LinearOrder K] [IsStrictOrderedRing K] in
theorem getD_locateStartOffsetScores {last j : ℕ} (hj : j ≤ last) :
    (locateStartOffsetScores dist user reference last).getD j ⊤ =
      startOffsetScore dist user reference j := by
  rw [locateStartOffsetScores_eq, List.getD_eq_getElem?_getD, List.getElem?_map,
    List.getElem?_range (Nat.lt_succ_of_le hj)]
  rfl

/-- The only free start scores zero, and comes first. -/
theorem Sorts.freeStart_first {argsort : List (WithTop K) → List ℕ} (h : Sorts argsort)
    (hdist : ∀ x y, 0 ≤ dist x y) (huser : user ≠ []) {k last : ℕ} (hk : k ≤ last)
    (hlast : last < reference.length) (hfree : FreeStart dist user reference k)
    (honly : ∀ j ≤ last, j ≠ k → ¬ FreeStart dist user reference j) :
    (locateStartOffsetScores dist user reference last).getD k ⊤ = ((0 : K) : WithTop K) ∧
      ∃ rest, argsort (locateStartOffsetScores dist user reference last) = k :: rest := by
  obtain ⟨score, hscore, -, hzero⟩ := startOffsetScore_eq hdist huser (hk.trans_lt hlast)
  obtain rfl := hzero.mpr hfree
  have hleast := (getD_locateStartOffsetScores hk).trans hscore
  have hlength : (locateStartOffsetScores dist user reference last).length = last + 1 := by
    rw [locateStartOffsetScores_eq, List.length_map, List.length_range]
  refine ⟨hleast, h.head_eq (by omega) fun j hj hjk => ?_⟩
  have hj' : j ≤ last := by omega
  obtain ⟨other, hother, hnonneg, hiff⟩ := startOffsetScore_eq hdist huser (hj'.trans_lt hlast)
  have hne : other ≠ 0 := fun hzero => honly j hj' hjk (hiff.mp hzero)
  rw [hleast, getD_locateStartOffsetScores hj', hother]
  exact_mod_cast lt_of_le_of_ne hnonneg hne.symm

/-- **An exact rendition from a later frame is located.**  Let the recording follow the
reference from frame `k` to its end, `k` within the first minute, and no other start within
it be free.  Once the direct attempt has failed, the scan puts `k` first and the stage
accepts it, frame by frame at distance zero. -/
theorem alignStageRun_lateStart_located (dist : Option Hz → Option Hz → K)
    (argsort : List (WithTop K) → List ℕ) (user reference : List (Option Hz)) (k : ℕ)
    (e : AlignError K) (hdist : ∀ x y, 0 ≤ dist x y) (hsorts : Sorts argsort)
    (hfollow : Follow dist user (reference.drop k))
    (hvoiced : minVoicedFraction ≤ voicedFraction user) (hfits : FitsTables user.length)
    (hpos : 0 < k) (hminute : k ≤ 6000)
    (honly : ∀ j, j < reference.length → j ≤ 6000 → j ≠ k → ¬ FreeStart dist user reference j)
    (hdirect : directAttempt dist user reference = .error e)
    (hfailed : e.errorClass = .alignmentFailed) :
    ∃ data, alignStageRun dist argsort user reference = .ok data ∧
      data.index1 = List.range user.length ∧ data.index2 = List.range user.length ∧
      data.normalizedDistance = 0 ∧ data.lengthMismatch = false ∧
      data.referenceStartOffsetSeconds = k * pitchHopSeconds := by
  have huser := ne_nil_of_voiced hvoiced
  have hn := List.length_pos_iff.mpr huser
  have hlength : user.length = reference.length - k := by
    rw [hfollow.length_eq, List.length_drop]
  have hframes : roundHalfEven (alignMaxStartOffsetSeconds / pitchHopSeconds) = 6000 := by
    decide +kernel
  obtain ⟨last, hlast⟩ : ∃ last : ℕ, (last : ℤ) = min 6000 ((reference.length : ℤ) - 1) :=
    ⟨(min 6000 ((reference.length : ℤ) - 1)).toNat, by omega⟩
  obtain ⟨hleast, rest, hfirst⟩ := hsorts.freeStart_first hdist huser (by omega : k ≤ last)
    (by omega) hfollow.freeStart fun j hj => honly j (by omega) (by omega)
  have hattempt := attemptAlign_follow hdist hfollow huser hfits
  have hfound : findReferenceStartOffset dist argsort user reference e =
      .ok (k, ⟨⟨List.range user.length, List.range user.length, 0⟩,
        ⟨List.range ((user.length + 4) / 5), List.range ((user.length + 4) / 5), 0⟩, false⟩) := by
    unfold findReferenceStartOffset
    dsimp only
    rw [hframes, ← hlast, if_neg (by omega), hfirst,
      show alignStartOffsetCandidateCount = 2 + 1 from rfl, List.take_succ_cons, tryCandidates,
      if_neg (not_or.mpr ⟨hpos.ne', by rw [hleast]; exact WithTop.coe_ne_top⟩),
      hattempt]
    dsimp only
    rw [if_pos (withinCeiling_zero rfl)]
  refine ⟨.diagonal user k, ?_, rfl, rfl, rfl, rfl, rfl⟩
  rw [alignStageRun, if_neg (not_lt.mpr hvoiced), hdirect]
  dsimp only
  rw [if_pos hfailed, hfound]
  rfl

end LateStart

theorem sorts_argsort : Sorts argsort where
  positions scores := List.perm_insertionSort _ _
  rising scores := by
    have htotal : Std.Total fun i j : ℕ => scores.getD i ⊤ ≤ scores.getD j ⊤ :=
      ⟨fun i j => le_total _ _⟩
    have htrans : IsTrans ℕ fun i j : ℕ => scores.getD i ⊤ ≤ scores.getD j ⊤ :=
      ⟨fun i j l => le_trans⟩
    exact List.pairwise_insertionSort _ _

deriving instance DecidableEq for AlignAttempt

/-- Two sung frames and a rest, after five frames of silence. -/
theorem alignStageRun_lateStart_located_fiveFrames :
    ∃ data, alignStageRun voicingDistance argsort [some 220, some 220, none]
        (List.replicate 5 none ++ [some 220, some 220, none]) = .ok data ∧
      data.index1 = [0, 1, 2] ∧ data.index2 = [0, 1, 2] ∧ data.normalizedDistance = 0 ∧
      data.lengthMismatch = false ∧ data.referenceStartOffsetSeconds = (5 : ℕ) * pitchHopSeconds := by
  refine alignStageRun_lateStart_located voicingDistance argsort [some 220, some 220, none]
    (List.replicate 5 none ++ [some 220, some 220, none]) 5 (.overCeiling (1 / 2)) ?_ sorts_argsort
    ?_ (by decide +kernel) (by decide +kernel) (by decide) (by decide) ?_ (by decide +kernel) rfl
  · intro x y
    unfold voicingDistance
    split_ifs <;> norm_num
  · exact .cons rfl (.cons rfl (.cons rfl .nil))
  · have hall : ∀ j < 8, j ≠ 5 → ¬ ∀ pair ∈ ([some 220, some 220, none] : List (Option ℚ)).zip
        ((List.replicate 5 (none : Option ℚ) ++ [some 220, some 220, none]).drop j),
        voicingDistance pair.1 pair.2 = 0 := by
      decide +kernel
    exact fun j hj _ hne => hall j hj hne

end VocalCoach
