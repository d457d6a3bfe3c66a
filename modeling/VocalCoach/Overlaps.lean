/-
# The two passes of one attempt

`_attempt_align` taken apart: the four curves it compares (`overlap`) and the two calls of
`banded_dtw` (`Overlap.coarsePass`, `Overlap.finePass`), of which it is the composition
(`attemptAlign_eq`).  Every coarse frame stands for five fine ones, also after the crop
(`overlap_groups`), and what the coarse pass returns is a warping path between the two ends
(`Overlap.coarsePass_pathTo`).
-/
import VocalCoach.Align
import VocalCoach.DtwOptimal

namespace VocalCoach

open LatticePath

/-! ## The two passes -/

/-- The curves `_attempt_align` compares, cropped to the overlap: every `stride`-th frame
for the coarse pass, all of them for the fine one. -/
structure Overlap (α : Type*) where
  userCoarse : List α
  referenceCoarse : List α
  userFine : List α
  referenceFine : List α

section Overlap

variable {α : Type*}

/-- The cropping of `_attempt_align`. -/
def overlap (user reference : List α) (offsetFrames stride coarseBand : ℕ) : Overlap α :=
  let offsetReference := reference.drop offsetFrames
  let (userCoarse, referenceCoarse, lengthMismatch) :=
    cropToOverlap (strided user stride) (strided offsetReference stride) coarseBand
  let keepFrames := min userCoarse.length referenceCoarse.length * stride
  { userCoarse, referenceCoarse,
    userFine := if lengthMismatch then user.take keepFrames else user,
    referenceFine := if lengthMismatch then offsetReference.take keepFrames else offsetReference }

/-- The first `banded_dtw` of `_attempt_align`. -/
def Overlap.coarsePass {K : Type*} [Field K] [LinearOrder K] (curves : Overlap α)
    (dist : α → α → K) (coarseBand : ℕ) : Except (AlignError K) (WarpingPath K) :=
  bandedDtw dist curves.userCoarse curves.referenceCoarse coarseBand none

/-- The second one, in the band around the first one's path. -/
def Overlap.finePass {K : Type*} [Field K] [LinearOrder K] (curves : Overlap α)
    (dist : α → α → K) (stride refineBand : ℕ) (coarse : WarpingPath K) :
    Except (AlignError K) (WarpingPath K) :=
  bandedDtw dist curves.userFine curves.referenceFine refineBand
    (some (refineCenter coarse (coarseHopDouble stride) pitchHopDouble
      curves.userFine.length curves.referenceFine.length))

/-- `_attempt_align` is the two passes, one after the other. -/
theorem attemptAlign_eq {Hz K : Type*} [Field K] [LinearOrder K]
    (dist : Option Hz → Option Hz → K) (user reference : List (Option Hz))
    (offsetFrames stride coarseBand refineBand : ℕ) :
    attemptAlign dist user reference offsetFrames stride coarseBand refineBand =
      (do
        let coarse ← (overlap user reference offsetFrames stride coarseBand).coarsePass dist coarseBand
        let fine ← (overlap user reference offsetFrames stride coarseBand).finePass dist stride
          refineBand coarse
        return ⟨fine, coarse, (cropToOverlap (strided user stride)
          (strided (reference.drop offsetFrames) stride) coarseBand).2.2⟩) := rfl

/-! ## Lengths -/

theorem length_strided (xs : List α) {stride : ℕ} (hstride : 0 < stride) :
    (strided xs stride).length = (xs.length + stride - 1) / stride := by
  have hall : ∀ t ∈ List.range ((xs.length + stride - 1) / stride),
      (xs[t * stride]?).isSome := by
    intro t ht
    rw [List.mem_range, Nat.lt_iff_add_one_le, Nat.le_div_iff_mul_le hstride, add_mul] at ht
    rw [List.getElem?_eq_getElem (by omega)]
    rfl
  rw [strided, List.length_filterMap_eq_countP, List.countP_eq_length.mpr hall, List.length_range]

/-- `_crop_to_overlap` leaves both sides alone or cuts the longer one to the other's length. -/
theorem cropToOverlap_cases (user reference : List α) (coarseBand : ℕ) :
    cropToOverlap user reference coarseBand = (user, reference, false) ∨
      (user.length < reference.length ∧
        cropToOverlap user reference coarseBand = (user, reference.take user.length, true)) ∨
      (reference.length ≤ user.length ∧
        cropToOverlap user reference coarseBand = (user.take reference.length, reference, true)) := by
  unfold cropToOverlap
  dsimp only
  split_ifs with hclose hlt
  · exact Or.inl rfl
  · exact Or.inr (Or.inl ⟨hlt, rfl⟩)
  · exact Or.inr (Or.inr ⟨not_lt.mp hlt, rfl⟩)

/-- One coarse frame for each group of five fine ones, the last group perhaps incomplete. -/
def Groups (coarse fine : List α) : Prop :=
  fine.length ≤ 5 * coarse.length ∧ 5 * coarse.length ≤ fine.length + 4

theorem overlap_groups (user reference : List α) (offsetFrames coarseBand : ℕ) :
    Groups (overlap user reference offsetFrames 5 coarseBand).userCoarse
        (overlap user reference offsetFrames 5 coarseBand).userFine ∧
      Groups (overlap user reference offsetFrames 5 coarseBand).referenceCoarse
        (overlap user reference offsetFrames 5 coarseBand).referenceFine := by
  have huser := length_strided user (show 0 < 5 by decide)
  have hreference := length_strided (reference.drop offsetFrames) (show 0 < 5 by decide)
  unfold overlap Groups
  rcases cropToOverlap_cases (strided user 5) (strided (reference.drop offsetFrames) 5) coarseBand
    with h | ⟨hlt, h⟩ | ⟨hle, h⟩
  · simp only [h, Bool.false_eq_true, if_false]
    omega
  · simp only [h, if_true, List.length_take]
    omega
  · simp only [h, if_true, List.length_take]
    omega

/-! ## The coarse path -/

section Coarse

variable {K : Type*} [Field K] [LinearOrder K] {dist : α → α → K} {curves : Overlap α}
  {coarseBand : ℕ} {coarse : WarpingPath K}

/-- A pass that returns had frames to compare and a table under the size guard. -/
theorem bandedDtw_ok_guard {a b : List α} {band : ℕ} {fullCenter : Option (List ℤ)}
    {path : WarpingPath K} (h : bandedDtw dist a b band fullCenter = .ok path) :
    a ≠ [] ∧ b ≠ [] ∧ (a.length + 1) * (2 * band + 1) ≤ dtwMaxCells := by
  unfold bandedDtw at h
  dsimp only at h
  split_ifs at h with hempty hguard
  rw [List.length_eq_zero_iff, List.length_eq_zero_iff] at hempty
  exact ⟨fun ha => hempty (Or.inl ha), fun hb => hempty (Or.inr hb), not_lt.mp hguard⟩

/-- **The coarse pass returns a warping path between the two ends.** -/
theorem Overlap.coarsePass_pathTo (h : curves.coarsePass dist coarseBand = .ok coarse) :
    PathTo (fun p => InBand (diagonalCenter curves.userCoarse.length) coarseBand (p.1 + 1) (p.2 + 1))
        (curves.userCoarse.length - 1, curves.referenceCoarse.length - 1) coarse.pairs ∧
      coarse.index1 = coarse.pairs.map Prod.fst ∧ coarse.index2 = coarse.pairs.map Prod.snd := by
  obtain ⟨ha, hb, hguard⟩ := bandedDtw_ok_guard h
  have hzero : (diagonalCenter curves.userCoarse.length).getD 0 0 = 0 := by simp [diagonalCenter]
  obtain ⟨hfail, hreturn⟩ := bandedDtw_eq dist (diagonalCenter curves.userCoarse.length) coarseBand
    ha hb hguard
  -- the default centers are the diagonal
  have hpass : bandedDtw dist curves.userCoarse curves.referenceCoarse coarseBand
      (some (diagonalCenter curves.userCoarse.length)) = .ok coarse := h
  have hreached : cellCost dist curves.userCoarse curves.referenceCoarse
      (diagonalCenter curves.userCoarse.length) coarseBand
      (curves.userCoarse.length - 1, curves.referenceCoarse.length - 1) ≠ ⊤ := by
    intro htop
    obtain ⟨e, herror, -⟩ := hfail htop
    rw [hpass] at herror
    cases herror
  obtain ⟨pairs, hpairs, h1, h2⟩ := bandedDtw_ok hpass
  have heq : coarse.pairs = pairs := by
    rw [WarpingPath.pairs, h1, h2, List.zip_map']
    simp
  rw [heq]
  refine ⟨?_, h1, h2⟩
  rw [hpairs]
  exact (backtrack_inBandPath dist hzero ha hb hreached).1

end Coarse

end Overlap

end VocalCoach
