/-
# What is scored past the overlap

When one side is much longer, `_crop_to_overlap` cuts its end off and the warping path ends
with the shorter side.  The later stages walk the full curves all the same:

* a user frame past the path is set against the last matched reference frame, because the
  interpolation of the time map clamps (`AlignData.comparedFrame_past`);
* every reference onset is carried over to the recording and contributes an offset, and
  every reference pause counts, those past the last matched frame too.

`onlyOverlapScored_iff` says exactly when nothing past the overlap is scored.
-/
import VocalCoach.Align
import VocalCoach.OnsetsAndPauses

namespace VocalCoach

open Interpolation LatticePath

section Overlap

variable {Hz K Cents : Type*}

/-- The last user frame on the stored warping path. -/
def AlignData.lastUserFrame (data : AlignData Hz K) : ℕ := data.index1.getLastD 0

/-- The last reference frame on it, counted from the start of the aligned curve. -/
def AlignData.lastReferenceFrame (data : AlignData Hz K) : ℕ := data.index2.getLastD 0

/-- The time of the last matched frame in the full reference. -/
def AlignData.lastReferenceTime (data : AlignData Hz K) : ℚ :=
  data.lastReferenceFrame * data.hopSeconds + data.referenceStartOffsetSeconds

/-- **Only the matched overlap is scored**: user frames past the path are compared with
nothing, and no reference onset or pause past the last matched frame enters a comparison. -/
structure OnlyOverlapScored (centsDeviation : Hz → Hz → Cents) (referenceHz : List (Option Hz))
    (data : AlignData Hz K) (userOnsets referenceOnsets userRms referenceRms : List ℚ) : Prop where
  frames : ∀ i, data.lastUserFrame < i → i < data.userPitchCurve.length →
    (alignAndCompare centsDeviation data.userPitchCurve referenceHz data.timeMap
        pitchHopSeconds).1[i]? = some none ∧
      (alignAndCompare centsDeviation data.userPitchCurve referenceHz data.timeMap
        pitchHopSeconds).2[i]? = some none
  onsets : ∀ t ∈ (comparedOnsets userOnsets referenceOnsets data.timeMap).map Prod.fst,
    t ≤ data.lastReferenceTime
  pauses : ∀ region ∈ (comparedPauses (pauseRegions userRms featuresHopSeconds)
      (pauseRegions referenceRms featuresHopSeconds) data.timeMap).map Prod.fst,
    region.1 ≤ data.lastReferenceTime

/-- **A frame past the path** is compared with the last reference frame on it. -/
theorem AlignData.comparedFrame_past {userHz : List (Option Hz)} {k : ℕ} {attempt : AlignAttempt K}
    {path : List (ℕ × ℕ)} (hpath : IsPath path)
    (h1 : attempt.fine.index1 = path.map Prod.fst)
    (h2 : attempt.fine.index2 = path.map Prod.snd) {i : ℕ}
    (hi : (AlignData.ofAttempt userHz k attempt).lastUserFrame ≤ i) :
    (AlignData.ofAttempt userHz k attempt).comparedFrame i =
      (AlignData.ofAttempt userHz k attempt).lastReferenceFrame := by
  simp only [comparedFrame, timeMap, lastUserFrame, lastReferenceFrame, ofAttempt, h1, h2,
    List.getLastD_eq_getLast?, List.getLast?_map] at hi ⊢
  cases hlast : path.getLast? with
  | none =>
    -- nothing is matched at all, and the map is zero everywhere
    rw [List.getLast?_eq_none_iff.mp hlast]
    have hzero : roundHalfEven ((0 : ℤ) : ℚ) = 0 := roundHalfEven_intCast 0
    simpa [TimeMap.referenceIndex, TimeMap.userToReference, TimeMap.fromWarpingPath, interp]
      using hzero
  | some p =>
    rw [hlast] at hi
    exact TimeMap.referenceIndex_of_last_le hpath hlast pitchHopSeconds_pos hi

/-- The deviation is `None` wherever the reference value is. -/
theorem alignAndCompare_snd_of_fst (centsDeviation : Hz → Hz → Cents)
    {userHz referenceHz : List (Option Hz)} {map : TimeMap} {hopSeconds : ℚ} {i : ℕ}
    (h : (alignAndCompare centsDeviation userHz referenceHz map hopSeconds).1[i]? = some none) :
    (alignAndCompare centsDeviation userHz referenceHz map hopSeconds).2[i]? = some none := by
  have hi : i < userHz.length := by
    have hlt := (List.getElem?_eq_some_iff.mp h).1
    rwa [length_alignAndCompare_fst] at hlt
  have hpair : (userHz.zip
      (alignAndCompare centsDeviation userHz referenceHz map hopSeconds).1)[i]? =
      some (userHz[i], none) := by
    rw [List.getElem?_zip_eq_some]
    exact ⟨List.getElem?_eq_getElem hi, h⟩
  show ((userHz.zip (alignAndCompare centsDeviation userHz referenceHz map hopSeconds).1).map
    _)[i]? = some none
  rw [List.getElem?_map, hpair, Option.map_some]
  cases userHz[i] <;> rfl

variable [Field K] [LinearOrder K] in
/-- **When only the overlap is scored.**  For every result the align stage stores, nothing
past the overlap is scored if and only if no user frame is past the path or the reference
is unvoiced on its last frame, no reference onset is past it (or the recording has no
onset at all), and no reference pause is. -/
theorem onlyOverlapScored_iff (centsDeviation : Hz → Hz → Cents)
    (dist : Option Hz → Option Hz → K) (argsort : List (WithTop K) → List ℕ)
    (userHz referenceHz : List (Option Hz)) (data : AlignData Hz K)
    (userOnsets referenceOnsets userRms referenceRms : List ℚ)
    (hrun : alignStageRun dist argsort userHz referenceHz = .ok data) :
    OnlyOverlapScored centsDeviation referenceHz data userOnsets referenceOnsets userRms
        referenceRms ↔
      (userHz.length ≤ data.lastUserFrame + 1 ∨
          referenceValue referenceHz data.lastReferenceFrame = none) ∧
        (userOnsets = [] ∨ ∀ t ∈ referenceOnsets, t ≤ data.lastReferenceTime) ∧
        ∀ region ∈ pauseRegions referenceRms featuresHopSeconds,
          region.1 ≤ data.lastReferenceTime := by
  obtain ⟨k, attempt, rfl, hattempt, -⟩ := alignStageRun_ok hrun
  obtain ⟨path, hpath, h1, h2⟩ := attemptAlign_fine hattempt
  have hpast : ∀ i, (AlignData.ofAttempt userHz k attempt).lastUserFrame < i → i < userHz.length →
      (alignAndCompare centsDeviation userHz referenceHz
        (AlignData.ofAttempt userHz k attempt).timeMap pitchHopSeconds).1[i]? =
      some (referenceValue referenceHz
        (AlignData.ofAttempt userHz k attempt).lastReferenceFrame) := by
    intro i hlast hi
    rw [alignAndCompare_fst_getElem _ _ _ _ _ _ hi,
      ← AlignData.comparedFrame_past hpath h1 h2 hlast.le]
    rfl
  constructor
  · rintro ⟨hframes, honsets, hpauses⟩
    refine ⟨?_, ?_, by simpa using hpauses⟩
    · by_contra hboth
      obtain ⟨hlt, hvoiced⟩ := not_or.mp hboth
      have hnext := hpast _ (Nat.lt_succ_self _) (not_le.mp hlt)
      have hnone := (hframes _ (Nat.lt_succ_self _) (not_le.mp hlt)).1
      exact hvoiced (Option.some.inj (hnext.symm.trans hnone))
    · by_cases hnone : userOnsets = []
      · exact Or.inl hnone
      · rw [map_fst_comparedOnsets hnone] at honsets
        exact Or.inr honsets
  · rintro ⟨hframes, honsets, hpauses⟩
    refine ⟨fun i hlast hi => ?_, ?_, by simpa using hpauses⟩
    · have hnone : referenceValue referenceHz
          (AlignData.ofAttempt userHz k attempt).lastReferenceFrame = none :=
        hframes.resolve_left fun hle => absurd (hlast.trans_le (Nat.le_of_lt_succ
          (lt_of_lt_of_le hi hle))) (lt_irrefl _)
      have hframe := hpast i hlast hi
      rw [hnone] at hframe
      exact ⟨hframe, alignAndCompare_snd_of_fst centsDeviation hframe⟩
    · rcases honsets with rfl | honsets
      · simp [comparedOnsets_nil]
      · by_cases hnone : userOnsets = []
        · simp [hnone, comparedOnsets_nil]
        · rw [map_fst_comparedOnsets hnone]
          exact honsets

end Overlap

/-! ## A take that ran over

Ten seconds sung over a reference of one frame: the crop leaves five user frames, and all
the others are compared with the only reference frame. -/

def overrunUserHz : List (Option ℚ) := List.replicate 1006 (some 220)

def overrunReferenceHz : List (Option ℚ) := [some 220]

def overrunData : AlignData ℚ ℚ where
  index1 := [0, 1, 2, 3, 4]
  index2 := [0, 0, 0, 0, 0]
  hopSeconds := 1 / 100
  normalizedDistance := 0
  coarseNormalizedDistance := 0
  lengthMismatch := true
  referenceStartOffsetSeconds := 0
  userPitchCurve := overrunUserHz

theorem strided_replicate {α : Type*} (n stride : ℕ) (x : α) (h : 0 < stride) :
    strided (List.replicate n x) stride = List.replicate ((n + stride - 1) / stride) x := by
  have hget : ∀ t ∈ List.range ((n + stride - 1) / stride),
      (List.replicate n x)[t * stride]? = some x := by
    intro t ht
    have hlt : (t + 1) * stride ≤ n + stride - 1 :=
      (Nat.le_div_iff_mul_le h).mp (List.mem_range.mp ht)
    rw [Nat.succ_mul] at hlt
    rw [List.getElem?_replicate, if_pos (by omega)]
  rw [strided, List.length_replicate, List.filterMap_congr hget, List.filterMap_eq_map']
  simp

theorem strided_overrun :
    strided overrunUserHz coarseStride = List.replicate 202 (some 220) := by
  have hstride : coarseStride = 5 := by decide +kernel
  rw [hstride, overrunUserHz, strided_replicate _ _ _ (by decide)]

theorem alignStageRun_overrun :
    alignStageRun voicingDistance argsort overrunUserHz overrunReferenceHz = .ok overrunData := by
  rw [alignStageRun, directAttempt, attemptAlign, strided_overrun]
  decide +kernel

theorem onlyOverlapScored_iff_overrun :
    OnlyOverlapScored (fun _ _ => (0 : ℚ)) overrunReferenceHz overrunData [0, 7] [0] [1] [1] ↔
      (overrunUserHz.length ≤ overrunData.lastUserFrame + 1 ∨
          referenceValue overrunReferenceHz overrunData.lastReferenceFrame = none) ∧
        (([0, 7] : List ℚ) = [] ∨ ∀ t ∈ ([0] : List ℚ), t ≤ overrunData.lastReferenceTime) ∧
        ∀ region ∈ pauseRegions [1] featuresHopSeconds,
          region.1 ≤ overrunData.lastReferenceTime :=
  onlyOverlapScored_iff (fun _ _ => 0) voicingDistance argsort overrunUserHz overrunReferenceHz
    overrunData [0, 7] [0] [1] [1] alignStageRun_overrun

theorem not_forall_onlyOverlapScored :
    ¬ ∀ (userHz referenceHz : List (Option ℚ)) (data : AlignData ℚ ℚ)
      (userOnsets referenceOnsets userRms referenceRms : List ℚ),
      alignStageRun voicingDistance argsort userHz referenceHz = .ok data →
      data.lengthMismatch = true →
      OnlyOverlapScored (fun _ _ => (0 : ℚ)) referenceHz data userOnsets referenceOnsets userRms
        referenceRms := by
  intro h
  have hscored := h overrunUserHz overrunReferenceHz overrunData [] [] [] []
    alignStageRun_overrun rfl
  have hframe := (hscored.frames 5 (by decide) (by decide +kernel)).1
  have hvalue : (alignAndCompare (fun _ _ => (0 : ℚ)) overrunData.userPitchCurve overrunReferenceHz
      overrunData.timeMap pitchHopSeconds).1[5]? = some (some 220) := by decide +kernel
  rw [hvalue] at hframe
  cases hframe

end VocalCoach
