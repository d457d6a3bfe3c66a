/-
# Key normalization

`KeyNormalizationStage.run` and the scoring half of `PitchStage.run`, whose deviations it reads
back.  Deviations are exact numbers, the three thresholds whatever a `float` setting can hold.

A shift that is applied is the median deviation, so what is left is the least mean distance any
constant shift leaves (`Medians.sumDist_median_le`).  No shift at all is one of those constants:
the score, which falls with the mean, cannot drop.  And a constant on top of all deviations
moves their median along (`Medians.sumDist_median_add`).
-/
import VocalCoach.TimeMap
import VocalCoach.Runner
import VocalCoach.Medians
import VocalCoach.Floats

namespace VocalCoach

open Interpolation Medians Pipeline

/-! ## Scoring deviations -/

/-- `score_from_mean_abs_cents`. -/
def scoreFromMeanAbsCents (meanAbsCents : ℚ) : ℚ :=
  let fraction := min 1 (meanAbsCents / pitchScoreCentsForZero)
  roundTenth (100 * (1 - fraction))

/-- `sum(abs(c) for c in cents) / len(cents)`. -/
def meanAbs (cents : List ℚ) : ℚ := (cents.map fun c => |c|).sum / cents.length

/-- `[c for c in deviation_cents if c is not None]`. -/
def presentCents (deviationCents : List (Option ℚ)) : List ℚ := deviationCents.filterMap id

/-- `piano_roll`. -/
structure PianoRollData (Hz : Type*) where
  hopSeconds : ℚ
  userHz : List (Option Hz)
  referenceHz : List (Option Hz)
  deviationCents : List (Option ℚ)
  offPitch : List Bool

/-- `PIANO_ROLL_OFF_PITCH_CENTS`. -/
def pianoRollOffPitchCents : ℚ := 50

/-- `StageResult.data` of the pitch stage. -/
structure PitchData (Hz : Type*) where
  score : ℚ
  meanAbsCents : ℚ
  comparedFrames : ℕ
  voicedFraction : ℚ
  userPitchCurve : List (Option Hz)
  pianoRoll : PianoRollData Hz

/-- `mean_abs_cents` of the pitch stage. -/
def pitchMeanAbsCents (deviationCents : List (Option ℚ)) : ℚ :=
  if (presentCents deviationCents).isEmpty then 0 else meanAbs (presentCents deviationCents)

/-- `score` of the pitch stage. -/
def pitchScore (deviationCents : List (Option ℚ)) : ℚ :=
  if (presentCents deviationCents).isEmpty then 0
  else scoreFromMeanAbsCents (pitchMeanAbsCents deviationCents)

/-- `PitchStage.run`. -/
def pitchStage {Hz : Type*} (centsDeviation : Hz → Hz → ℚ) (userHz referenceHz : List (Option Hz))
    (timeMap : TimeMap) : PitchData Hz :=
  let (alignedReferenceHz, deviationsCents) :=
    alignAndCompare centsDeviation userHz referenceHz timeMap pitchHopSeconds
  { score := pitchScore deviationsCents
    meanAbsCents := pitchMeanAbsCents deviationsCents
    comparedFrames := (presentCents deviationsCents).length
    voicedFraction := voicedFraction userHz
    userPitchCurve := userHz
    pianoRoll :=
      { hopSeconds := pitchHopSeconds
        userHz
        referenceHz := alignedReferenceHz
        deviationCents := deviationsCents
        offPitch := deviationsCents.map fun c => c.any fun c => pianoRollOffPitchCents < |c| } }

/-! ## The stage -/

/-- `np.percentile`, interpolating between the two neighbours. -/
def percentile (xs : List ℚ) (q : ℚ) : ℚ :=
  let position := q / 100 * (xs.length - 1 : ℕ)
  let below := ⌊position⌋.toNat
  let above := min (below + 1) (xs.length - 1)
  let low := (sorted xs).getD below 0
  low + (position - below) * ((sorted xs).getD above 0 - low)

def semitoneCents : ℚ := 100

/-- `round(x, places)`. -/
def roundPlaces (x : ℚ) (places : ℕ) : ℚ := roundHalfEven (x * 10 ^ places) / 10 ^ places

/-- The constructor arguments of `KeyNormalizationStage`. -/
structure KeyNormalizationStage where
  minSemitones : Floating
  maxIqrSemitones : Floating
  maxSemitones : Floating

/-- `StageResult.data` of the stage. -/
structure KeyNormalizationData where
  applied : Bool
  keyShiftSemitones : Option ℚ
  medianSemitones : ℚ
  iqrSemitones : ℚ
  outOfRange : Bool
  adjustedScore : Option ℚ
  adjustedMeanAbsCents : Option ℚ
  deriving DecidableEq, Repr

namespace KeyNormalizationStage

/-- `_result`. -/
def result (applied : Bool) (medianSemitones iqrSemitones : ℚ) (outOfRange : Bool)
    (adjustedScore adjustedMeanAbsCents : Option ℚ) : KeyNormalizationData :=
  { applied
    keyShiftSemitones := if applied then some (roundPlaces medianSemitones 2) else none
    medianSemitones := roundPlaces medianSemitones 3
    iqrSemitones := roundPlaces iqrSemitones 3
    outOfRange
    adjustedScore
    adjustedMeanAbsCents }

/-- `run`, on the deviations of the pitch stage's piano roll. -/
def run (stage : KeyNormalizationStage) (mode : Mode) (allowTransposition : Bool)
    (deviationCents : List (Option ℚ)) : KeyNormalizationData :=
  let present := presentCents deviationCents
  if present.isEmpty then result false 0 0 false none none
  else
    let medianSemitones := median present / semitoneCents
    let iqrSemitones := (percentile present 75 - percentile present 25) / semitoneCents
    let eligible := decide (mode = .mixed) || allowTransposition
    let outOfRange := eligible && stage.maxSemitones.lt (.finite |medianSemitones|)
    let applied := eligible && !outOfRange &&
      stage.minSemitones.le (.finite |medianSemitones|) &&
      (Floating.finite iqrSemitones).le stage.maxIqrSemitones
    if applied then
      let shiftCents := medianSemitones * semitoneCents
      let adjusted := present.map fun c => c - shiftCents
      result applied medianSemitones iqrSemitones outOfRange
        (some (scoreFromMeanAbsCents (meanAbs adjusted))) (some (meanAbs adjusted))
    else result applied medianSemitones iqrSemitones outOfRange none none

end KeyNormalizationStage

/-! ## The score falls with the mean deviation -/

theorem roundTenth_mono {x y : ℚ} (h : x ≤ y) : roundTenth x ≤ roundTenth y := by
  have hround : roundHalfEven (x * 10) ≤ roundHalfEven (y * 10) := by
    apply roundHalfEven_mono
    linarith
  have hcast : (roundHalfEven (x * 10) : ℚ) ≤ roundHalfEven (y * 10) := by exact_mod_cast hround
  unfold roundTenth
  linarith

theorem scoreFromMeanAbsCents_anti {x y : ℚ} (h : x ≤ y) :
    scoreFromMeanAbsCents y ≤ scoreFromMeanAbsCents x := by
  have hpos : (0 : ℚ) ≤ pitchScoreCentsForZero := by decide +kernel
  have hfraction : min 1 (x / pitchScoreCentsForZero) ≤ min 1 (y / pitchScoreCentsForZero) :=
    min_le_min_left 1 (div_le_div_of_nonneg_right h hpos)
  apply roundTenth_mono
  linarith

/-! ## What an applied shift leaves -/

section Applied

variable {stage : KeyNormalizationStage} {mode : Mode} {allowTransposition : Bool}
  {deviationCents : List (Option ℚ)}

/-- The mean distance to a constant is the sum of the distances over their number. -/
theorem meanAbs_sub (s : ℚ) (cents : List ℚ) :
    meanAbs (cents.map fun c => c - s) = sumDist s cents / cents.length := by
  simp [meanAbs, sumDist, Function.comp_def]

/-- **What the stage returns when it applies a shift**: the deviations around their median. -/
theorem KeyNormalizationStage.run_applied
    (happlied : (stage.run mode allowTransposition deviationCents).applied = true) :
    presentCents deviationCents ≠ [] ∧
      ∃ mean, mean = meanAbs ((presentCents deviationCents).map fun c =>
          c - median (presentCents deviationCents)) ∧
        (stage.run mode allowTransposition deviationCents).adjustedMeanAbsCents = some mean ∧
        (stage.run mode allowTransposition deviationCents).adjustedScore
          = some (scoreFromMeanAbsCents mean) := by
  have hcents : semitoneCents ≠ 0 := by decide +kernel
  unfold run at happlied ⊢
  dsimp only at happlied ⊢
  by_cases hempty : (presentCents deviationCents).isEmpty = true
  · rw [if_pos hempty] at happlied
    cases happlied
  · rw [if_neg hempty] at happlied ⊢
    refine ⟨by simpa using hempty, _, rfl, ?_⟩
    split_ifs at happlied ⊢ with hall
    · rw [div_mul_cancel₀ _ hcents]
      exact ⟨rfl, rfl⟩
    · exact absurd happlied hall

end Applied

/-- Every deviation moved by the same constant. -/
def transposed (d : ℚ) (deviationCents : List (Option ℚ)) : List (Option ℚ) :=
  deviationCents.map fun c => c.map (· + d)

theorem presentCents_transposed (d : ℚ) (deviationCents : List (Option ℚ)) :
    presentCents (transposed d deviationCents) = (presentCents deviationCents).map (· + d) := by
  simp only [presentCents, transposed, List.filterMap_map, List.map_filterMap]
  rfl

/-- **An applied shift is the best constant one and never lowers the score.**  The mean that is
left is the least over all constants, the score at least that of the pitch stage, and a
constant on top of all deviations does not change it while a shift is still applied. -/
theorem keyNormalization_best (stage : KeyNormalizationStage) (mode : Mode)
    (allowTransposition : Bool) (deviationCents : List (Option ℚ))
    (happlied : (stage.run mode allowTransposition deviationCents).applied = true) :
    ∃ mean score,
      (stage.run mode allowTransposition deviationCents).adjustedMeanAbsCents = some mean ∧
      (stage.run mode allowTransposition deviationCents).adjustedScore = some score ∧
      IsLeast (Set.range fun s => meanAbs ((presentCents deviationCents).map fun c => c - s))
        mean ∧
      pitchScore deviationCents ≤ score ∧
      ∀ d, (stage.run mode allowTransposition (transposed d deviationCents)).applied = true →
        (stage.run mode allowTransposition (transposed d deviationCents)).adjustedScore
          = some score := by
  obtain ⟨hpresent, mean, hmean, hadjusted, hscore⟩ := stage.run_applied happlied
  have hleast : ∀ s, mean ≤ meanAbs ((presentCents deviationCents).map fun c => c - s) := by
    intro s
    rw [hmean, meanAbs_sub, meanAbs_sub]
    exact div_le_div_of_nonneg_right (sumDist_median_le _ s) (Nat.cast_nonneg _)
  refine ⟨mean, _, hadjusted, hscore, ⟨⟨_, hmean.symm⟩, ?_⟩, ?_, ?_⟩
  · rintro _ ⟨s, rfl⟩
    exact hleast s
  · -- no shift is the constant zero
    have hraw : mean ≤ meanAbs (presentCents deviationCents) := by
      have hzero := hleast 0
      simpa only [sub_zero, List.map_id'] using hzero
    have hnonempty : ¬ (presentCents deviationCents).isEmpty = true := by
      simpa using hpresent
    rw [pitchScore, pitchMeanAbsCents, if_neg hnonempty, if_neg hnonempty]
    exact scoreFromMeanAbsCents_anti hraw
  · intro d hstill
    obtain ⟨-, mean', hmean', -, hscore'⟩ := stage.run_applied hstill
    have hsame : mean' = mean := by
      rw [hmean, hmean', presentCents_transposed, meanAbs_sub, meanAbs_sub, sumDist_median_add,
        List.length_map]
    rw [hscore', hsame]

/-- The thresholds of the default configuration. -/
def defaultKeyNormalization : KeyNormalizationStage where
  minSemitones := .finite (3 / 5)
  maxIqrSemitones := .finite (1 / 2)
  maxSemitones := .finite 7

/-- Three semitones up, a little unevenly. -/
theorem keyNormalization_threeSemitones :
    ∃ mean score,
      (defaultKeyNormalization.run .mixed false
        [some 290, none, some 300, some 315, some 305]).adjustedMeanAbsCents = some mean ∧
      (defaultKeyNormalization.run .mixed false
        [some 290, none, some 300, some 315, some 305]).adjustedScore = some score ∧
      pitchScore [some 290, none, some 300, some 315, some 305] ≤ score ∧ mean = 15 / 2 ∧
      score = 185 / 2 := by
  have happlied : (defaultKeyNormalization.run .mixed false
      [some 290, none, some 300, some 315, some 305]).applied = true := by decide +kernel
  obtain ⟨mean, score, hmean, hscore, -, hraw, -⟩ := keyNormalization_best _ _ _ _ happlied
  refine ⟨mean, score, hmean, hscore, hraw, ?_, ?_⟩
  · have hvalue : (defaultKeyNormalization.run .mixed false
        [some 290, none, some 300, some 315, some 305]).adjustedMeanAbsCents = some (15 / 2) := by
      decide +kernel
    exact Option.some.inj (hmean.symm.trans hvalue)
  · have hvalue : (defaultKeyNormalization.run .mixed false
        [some 290, none, some 300, some 315, some 305]).adjustedScore = some (185 / 2) := by
      decide +kernel
    exact Option.some.inj (hscore.symm.trans hvalue)

end VocalCoach
