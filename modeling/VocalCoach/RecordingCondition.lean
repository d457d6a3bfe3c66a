/-
# The recording condition and the recording level

Models `pipeline/stages/recording_condition.py`: the level of what is heard between the sung
frames, relative to these, and the mode it is reconciled with.

The level a take was recorded at says nothing about the singer.  All four stages that read
loudness read it relative to the take itself: the peak (`voiced_mask`, `_pause_regions`), the
mean and the spread (`_correlation`), the median of the sung frames (`_accompaniment_level`).
`recordingLevel_irrelevant` puts the four together.
-/
import VocalCoach.AspectStages
import VocalCoach.KeyNormalization
import VocalCoach.VoiceActivity
import Mathlib.Analysis.Real.Sqrt

namespace VocalCoach

open Interpolation Medians Similarity Pipeline

/-! ## `RecordingConditionStage` -/

def recordingConditionMinUnvoicedFrames : ℕ := 10

/-- The frames where `voiced` is `sung`, as far as both series go: indexing with a mask. -/
def framesWhere (sung : Bool) (rms : List ℚ) (voiced : List Bool) : List ℚ :=
  (rms.zip voiced).filterMap fun p => if p.2 = sung then some p.1 else none

/-- `_accompaniment_level`. -/
def accompanimentLevel (rms : List ℚ) (voiced : List Bool) : ℚ :=
  let frameCount := min rms.length voiced.length
  if frameCount = 0 then 0
  else
    let voicedRms := framesWhere true (rms.take frameCount) (voiced.take frameCount)
    let unvoicedRms := framesWhere false (rms.take frameCount) (voiced.take frameCount)
    if voicedRms.length = 0 ∨ unvoicedRms.length < recordingConditionMinUnvoicedFrames then 0
    else
      let voicedMedian := median voicedRms
      if voicedMedian ≤ 0 then 0 else median unvoicedRms / voicedMedian

/-- `_reconcile_mode`. -/
def reconcileMode (declared : Mode) (accompanimentDetected : Bool) : Mode × List String :=
  if declared = .clean ∧ accompanimentDetected then (.clean, ["ACCOMPANIMENT_IN_CLEAN_MODE"])
  else if declared = .mixed ∧ ¬ accompanimentDetected then (.clean, ["MODE_DOWNGRADED_TO_CLEAN"])
  else (declared, [])

/-- `StageResult.data` of `RecordingConditionStage`. -/
structure RecordingConditionData where
  accompanimentLevel : ℚ
  accompanimentDetected : Bool
  effectiveMode : Mode
  warnings : List String

/-- `RecordingConditionStage.run`, on the envelope of the raw recording and its pitch curve. -/
def recordingConditionRun {Hz : Type*} (threshold : Floating) (mode : Mode) (rawRms : List ℚ)
    (userHz : List (Option Hz)) : RecordingConditionData :=
  let level := accompanimentLevel rawRms (userHz.map Option.isSome)
  let detected := threshold.le (.finite level)
  let (effectiveMode, warnings) := reconcileMode mode detected
  { accompanimentLevel := roundPlaces level 4
    accompanimentDetected := detected
    effectiveMode
    warnings }

/-- A warning says that the declared mode is not the one the recording looks like, and the
effective mode is `mixed` only where accompaniment was heard. -/
theorem reconcileMode_spec (declared : Mode) (detected : Bool) :
    ((reconcileMode declared detected).2 ≠ [] ↔ (declared = .mixed ↔ detected = false)) ∧
      ((reconcileMode declared detected).1 = .mixed ↔ declared = .mixed ∧ detected = true) := by
  cases declared <;> cases detected <;> decide

/-! ## Relative levels -/

section Gain

variable {gain : ℚ}

theorem peakOf_map_mul (hgain : 0 < gain) (rms : List ℚ) :
    peakOf (rms.map (gain * ·)) = gain * peakOf rms := by
  have hmax : ∀ (rest : List ℚ) (best : ℚ),
      (rest.map (gain * ·)).foldl max (gain * best) = gain * rest.foldl max best := by
    intro rest
    induction rest with
    | nil => exact fun _ => rfl
    | cons x rest ih =>
      intro best
      rw [List.map_cons, List.foldl_cons, List.foldl_cons, ← mul_max_of_nonneg _ _ hgain.le, ih]
  cases rms with
  | nil => exact (mul_zero gain).symm
  | cons x rest =>
    show (rest.map (gain * ·)).foldl max (gain * x) = gain * rest.foldl max x
    exact hmax rest x

theorem isSilent_mul (hgain : 0 < gain) (peak level : ℚ) :
    isSilent (gain * peak) (gain * level) = isSilent peak level := by
  unfold isSilent
  rw [mul_div_mul_left _ _ hgain.ne']

theorem loudEnough_mul (hgain : 0 < gain) (peak level : ℚ) :
    loudEnough (gain * peak) (gain * level) = loudEnough peak level := by
  unfold loudEnough
  simp only [isSilent_mul hgain, mul_pos_iff_of_pos_left hgain]

theorem mul_nonpos_iff_of_pos (hgain : 0 < gain) (x : ℚ) : gain * x ≤ 0 ↔ x ≤ 0 := by
  rw [← not_lt, ← not_lt, mul_pos_iff_of_pos_left hgain]

theorem pauseRegions_gain (hgain : 0 < gain) (rms : List ℚ) (hopSeconds : ℚ) :
    pauseRegions (rms.map (gain * ·)) hopSeconds = pauseRegions rms hopSeconds := by
  have hsilent : (rms.map (gain * ·)).map (isSilent (gain * peakOf rms)) =
      rms.map (isSilent (peakOf rms)) := by
    rw [List.map_map]
    exact List.map_congr_left fun level _ => isSilent_mul hgain _ level
  show (if peakOf (rms.map (gain * ·)) ≤ 0 then [] else
    pauseLoop hopSeconds 0 none ((rms.map (gain * ·)).map (isSilent (peakOf (rms.map (gain * ·)))))) =
    if peakOf rms ≤ 0 then [] else pauseLoop hopSeconds 0 none (rms.map (isSilent (peakOf rms)))
  rw [peakOf_map_mul hgain, hsilent]
  exact if_congr (mul_nonpos_iff_of_pos hgain _) rfl rfl

theorem voicedMask_gain (hgain : 0 < gain) (rms : List ℚ) (hopSeconds : ℚ) :
    voicedMask (rms.map (gain * ·)) hopSeconds = voicedMask rms hopSeconds := by
  have hloud : (rms.map (gain * ·)).map (loudEnough (gain * peakOf rms)) =
      rms.map (loudEnough (peakOf rms)) := by
    rw [List.map_map]
    exact List.map_congr_left fun level _ => loudEnough_mul hgain _ level
  unfold voicedMask
  rw [peakOf_map_mul hgain, hloud, List.length_map]
  simp only [List.isEmpty_map, mul_nonpos_iff_of_pos hgain]

theorem framesWhere_map (f : ℚ → ℚ) (sung : Bool) (rms : List ℚ) (voiced : List Bool) :
    framesWhere sung (rms.map f) voiced = (framesWhere sung rms voiced).map f := by
  unfold framesWhere
  rw [List.zip_map_left, List.filterMap_map, List.map_filterMap]
  refine List.filterMap_congr fun p _ => ?_
  simp only [Function.comp_apply, Prod.map_fst, Prod.map_snd, id_eq]
  split_ifs <;> rfl

theorem accompanimentLevel_gain (hgain : 0 < gain) (rms : List ℚ) (voiced : List Bool) :
    accompanimentLevel (rms.map (gain * ·)) voiced = accompanimentLevel rms voiced := by
  unfold accompanimentLevel
  simp only [List.length_map, ← List.map_take, framesWhere_map, median_map_mul hgain,
    mul_nonpos_iff_of_pos hgain, mul_div_mul_left _ _ hgain.ne']

end Gain

theorem isSqrt_sqrt : IsSqrt Real.sqrt := ⟨Real.sqrt_nonneg, fun _ hx => Real.sq_sqrt hx⟩

/-- **The level of the recording does not matter.**  A gain on the recording, and another one
on the reference, change neither the voiced mask nor the pauses, the breath score, the dynamics
score or what is said about accompaniment. -/
theorem recordingLevel_irrelevant {Hz : Type*} (rms referenceRms rawRms : List ℚ)
    (userHz : List (Option Hz)) (map : TimeMap) (hopSeconds : ℚ) (threshold : Floating)
    (mode : Mode) {gain gain' : ℚ} (hgain : 0 < gain) (hgain' : 0 < gain') :
    voicedMask (rms.map (gain * ·)) hopSeconds = voicedMask rms hopSeconds ∧
    pauseRegions (rms.map (gain * ·)) hopSeconds = pauseRegions rms hopSeconds ∧
    breathRun (rms.map (gain * ·)) (referenceRms.map (gain' * ·)) map =
      breathRun rms referenceRms map ∧
    (∀ user reference : List ℝ,
      dynamicsRun Real.sqrt (user.map (gain * ·)) (reference.map (gain' * ·)) map =
        dynamicsRun Real.sqrt user reference map) ∧
    recordingConditionRun threshold mode (rawRms.map (gain * ·)) userHz =
      recordingConditionRun threshold mode rawRms userHz := by
  refine ⟨voicedMask_gain hgain rms hopSeconds, pauseRegions_gain hgain rms hopSeconds, ?_, ?_, ?_⟩
  · unfold breathRun
    rw [pauseRegions_gain hgain, pauseRegions_gain hgain']
  · intro user reference
    have hpos : (0 : ℝ) < gain := by exact_mod_cast hgain
    have hpos' : (0 : ℝ) < gain' := by exact_mod_cast hgain'
    simpa only [add_zero] using dynamicsRun_gain isSqrt_sqrt user reference map 0 0 hpos hpos'
  · unfold recordingConditionRun
    rw [accompanimentLevel_gain hgain]

/-- A take recorded at half the level. -/
theorem recordingLevel_irrelevant_half :
    breathRun ([1, 0, 0, 0, 0, 1].map ((1 / 2) * ·)) ([1, 0, 0, 0, 0, 1].map (1 * ·))
        (.fromWarpingPath [0, 1] [0, 1] pitchHopSeconds) =
      breathRun [1, 0, 0, 0, 0, 1] [1, 0, 0, 0, 0, 1]
        (.fromWarpingPath [0, 1] [0, 1] pitchHopSeconds) ∧
    (recordingConditionRun (.finite (3 / 20)) .clean ([1, 0].map ((1 / 2) * ·))
        [some (220 : ℚ), none]).warnings =
      (recordingConditionRun (.finite (3 / 20)) .clean [1, 0] [some (220 : ℚ), none]).warnings := by
  obtain ⟨-, -, hbreath, -, hcondition⟩ := recordingLevel_irrelevant [1, 0, 0, 0, 0, 1]
    [1, 0, 0, 0, 0, 1] [1, 0] [some (220 : ℚ), none]
    (.fromWarpingPath [0, 1] [0, 1] pitchHopSeconds) featuresHopSeconds (.finite (3 / 20)) .clean
    (show (0 : ℚ) < 1 / 2 by norm_num) (show (0 : ℚ) < 1 by norm_num)
  exact ⟨hbreath, by rw [hcondition]⟩

end VocalCoach
