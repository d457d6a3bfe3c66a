/-
# The rhythm and breath stages

Models `pipeline/stages/rhythm.py` and `pipeline/stages/breath.py`: the onsets and the
pauses of the reference, carried over to the recording by the time map and compared with
the recording's own.

* `comparedOnsets` pairs each reference onset with its offset from the nearest user onset,
  `comparedPauses` each reference pause with whether a user pause matches it; the two
  scores are read off these lists.
* `pauseRegions` is the loop of `_pause_regions` over the frames.

A frame is silent when `20 * log10(rms / peak)` is below the threshold; `isSilent` says so
without a logarithm, and `isSilent_iff` that it is the same.
-/
import VocalCoach.TimeMap
import Mathlib.Analysis.SpecialFunctions.Log.Base

namespace VocalCoach

open Interpolation

/-! ## `RhythmStage` -/

/-- `_score_from_mean_abs_offset_ms`. -/
def scoreFromMeanAbsOffsetMs (meanAbsOffsetMs : ℚ) : ℚ :=
  roundTenth (100 * (1 - min 1 (meanAbsOffsetMs / rhythmOnsetToleranceMs)))

/-- `min(candidates, key=abs(candidate - t), default=None)`: the first of the nearest. -/
def nearestTo (t : ℚ) : List ℚ → Option ℚ
  | [] => none
  | first :: rest =>
      some (rest.foldl (fun best candidate =>
        if |candidate - t| < |best - t| then candidate else best) first)

/-- The reference onsets that contribute an offset, with the offset: the loop of
`RhythmStage.run`. -/
def comparedOnsets (userOnsets referenceOnsets : List ℚ) (map : TimeMap) : List (ℚ × ℚ) :=
  referenceOnsets.filterMap fun referenceTime =>
    let expectedUserTime := map.referenceToUser referenceTime
    (nearestTo expectedUserTime userOnsets).map fun nearest =>
      (referenceTime, |nearest - expectedUserTime| * 1000)

/-- `StageResult.data` of `RhythmStage`. -/
structure RhythmData where
  score : ℚ
  meanAbsOffsetMs : ℚ
  onsetsWithinTolerance : ℕ
  referenceOnsetCount : ℕ
  userOnsetCount : ℕ
  deriving DecidableEq, Repr

/-- `RhythmStage.run`. -/
def rhythmRun (userOnsets referenceOnsets : List ℚ) (map : TimeMap) : RhythmData :=
  let offsetsMs := (comparedOnsets userOnsets referenceOnsets map).map Prod.snd
  let meanAbsOffsetMs := if offsetsMs.isEmpty then 0 else offsetsMs.sum / offsetsMs.length
  { score := if offsetsMs.isEmpty then 0 else scoreFromMeanAbsOffsetMs meanAbsOffsetMs
    meanAbsOffsetMs
    onsetsWithinTolerance := offsetsMs.countP (· ≤ rhythmOnsetToleranceMs)
    referenceOnsetCount := referenceOnsets.length
    userOnsetCount := userOnsets.length }

theorem nearestTo_eq_none_iff {t : ℚ} {candidates : List ℚ} :
    nearestTo t candidates = none ↔ candidates = [] := by
  cases candidates <;> simp [nearestTo]

/-- Without a user onset nothing is compared. -/
theorem comparedOnsets_nil (referenceOnsets : List ℚ) (map : TimeMap) :
    comparedOnsets [] referenceOnsets map = [] := by
  simp [comparedOnsets, nearestTo]

/-- **With one, every reference onset is**, wherever it lies. -/
theorem map_fst_comparedOnsets {userOnsets : List ℚ} (h : userOnsets ≠ [])
    (referenceOnsets : List ℚ) (map : TimeMap) :
    (comparedOnsets userOnsets referenceOnsets map).map Prod.fst = referenceOnsets := by
  induction referenceOnsets with
  | nil => rfl
  | cons t rest ih =>
    have hsome : nearestTo (map.referenceToUser t) userOnsets ≠ none :=
      mt nearestTo_eq_none_iff.mp h
    obtain ⟨nearest, hnearest⟩ := Option.ne_none_iff_exists'.mp hsome
    unfold comparedOnsets at ih ⊢
    dsimp only at ih ⊢
    rw [List.filterMap_cons, hnearest, Option.map_some, List.map_cons, ih]

/-! ## `_pause_regions` -/

/-- `20 * log10(rms / peak) < BREATH_SILENCE_RELATIVE_DB`, for `0 ≤ rms` and `0 < peak`. -/
def isSilent (peak rms : ℚ) : Bool := (rms / peak) ^ 4 * 10 ^ 7 < 1

/-- `max(1, round(BREATH_MIN_PAUSE_SECONDS / hop_seconds))`. -/
def minPauseFrames (hopSeconds : ℚ) : ℕ :=
  (max 1 (roundHalfEven (breathMinPauseSeconds / hopSeconds))).toNat

/-- The region of a run that ended before frame `i`, if it is long enough. -/
def closeRun (hopSeconds : ℚ) (i : ℕ) : Option ℕ → List (ℚ × ℚ)
  | none => []
  | some runStart =>
      if minPauseFrames hopSeconds ≤ i - runStart then [(runStart * hopSeconds, i * hopSeconds)]
      else []

/-- The loop over the frames, from frame `i` on with the run open since `runStart`. -/
def pauseLoop (hopSeconds : ℚ) : ℕ → Option ℕ → List Bool → List (ℚ × ℚ)
  | i, runStart, [] => closeRun hopSeconds i runStart
  | i, runStart, silent :: rest =>
      if silent then pauseLoop hopSeconds (i + 1) (some (runStart.getD i)) rest
      else closeRun hopSeconds i runStart ++ pauseLoop hopSeconds (i + 1) none rest

/-- `_pause_regions`. -/
def pauseRegions (rms : List ℚ) (hopSeconds : ℚ) : List (ℚ × ℚ) :=
  let peak := rms.max?.getD 0
  if peak ≤ 0 then [] else pauseLoop hopSeconds 0 none (rms.map (isSilent peak))

/-! ## `BreathStage` -/

/-- The reference pauses `_score` goes through, each with whether a user pause matches. -/
def comparedPauses (userRegions referenceRegions : List (ℚ × ℚ)) (map : TimeMap) :
    List ((ℚ × ℚ) × Bool) :=
  let userCenters := userRegions.map fun region => (region.1 + region.2) / 2
  referenceRegions.map fun region =>
    let expectedUserTime := map.referenceToUser ((region.1 + region.2) / 2)
    (region, userCenters.any fun center =>
      |center - expectedUserTime| ≤ breathPauseMatchToleranceSeconds)

/-- `_score`. -/
def breathScore (userRegions referenceRegions : List (ℚ × ℚ)) (map : TimeMap) : ℚ × ℕ :=
  if referenceRegions.isEmpty then (100, 0)
  else
    let compared := comparedPauses userRegions referenceRegions map
    let matched := compared.countP Prod.snd
    (roundTenth (100 * matched / compared.length), matched)

/-- `StageResult.data` of `BreathStage`. -/
structure BreathData where
  score : ℚ
  matchedPauses : ℕ
  referencePauseCount : ℕ
  userPauseCount : ℕ
  deriving DecidableEq, Repr

/-- `BreathStage.run`. -/
def breathRun (userRms referenceRms : List ℚ) (map : TimeMap) : BreathData :=
  let userRegions := pauseRegions userRms featuresHopSeconds
  let referenceRegions := pauseRegions referenceRms featuresHopSeconds
  let (score, matched) := breathScore userRegions referenceRegions map
  { score
    matchedPauses := matched
    referencePauseCount := referenceRegions.length
    userPauseCount := userRegions.length }

@[simp] theorem map_fst_comparedPauses (userRegions referenceRegions : List (ℚ × ℚ))
    (map : TimeMap) :
    (comparedPauses userRegions referenceRegions map).map Prod.fst = referenceRegions := by
  simp [comparedPauses, Function.comp_def]

/-! ## Silence -/

/-- **The threshold of `isSilent` is that of the source**, with `log10` of zero below every
threshold. -/
theorem isSilent_iff {peak rms : ℚ} (hpeak : 0 < peak) (hrms : 0 ≤ rms) :
    isSilent peak rms = true ↔
      rms = 0 ∨ 20 * Real.logb 10 ((rms : ℝ) / peak) < (breathSilenceRelativeDb : ℝ) := by
  rw [isSilent, decide_eq_true_eq]
  rcases hrms.eq_or_lt with rfl | hpos
  · norm_num
  · have hratio : (0 : ℝ) < (rms : ℝ) / peak := by
      have hrms' : (0 : ℝ) < rms := by exact_mod_cast hpos
      have hpeak' : (0 : ℝ) < peak := by exact_mod_cast hpeak
      positivity
    have hpow : (0 : ℝ) < ((rms : ℝ) / peak) ^ 4 * 10 ^ 7 := by positivity
    -- take the logarithm of both sides
    have hlog : Real.logb 10 (((rms : ℝ) / peak) ^ 4 * 10 ^ 7) =
        4 * Real.logb 10 ((rms : ℝ) / peak) + 7 := by
      rw [Real.logb_mul (by positivity) (by positivity), Real.logb_pow, Real.logb_pow,
        Real.logb_self_eq_one (by norm_num)]
      norm_num
    have hcast : (rms / peak) ^ 4 * 10 ^ 7 < 1 ↔ ((rms : ℝ) / peak) ^ 4 * 10 ^ 7 < 1 := by
      exact_mod_cast Iff.rfl
    have hdb : (breathSilenceRelativeDb : ℝ) = -35 := by
      norm_num [breathSilenceRelativeDb]
    rw [hcast, ← Real.logb_neg_iff (b := 10) (by norm_num) hpow, hlog, hdb]
    constructor
    · intro h
      exact Or.inr (by linarith)
    · rintro (h | h)
      · exact absurd h hpos.ne'
      · linarith

end VocalCoach
