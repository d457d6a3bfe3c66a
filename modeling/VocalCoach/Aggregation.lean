/-
# The aggregate stage

`pipeline/stages/aggregate.py` with `scoring/weights.py`, `scoring/confidence.py` and
`pipeline/report.py`: what the last stage makes of the data of the others.

* `Datum` is what a field of these data holds, `number`, `flag` and the others read one; a
  missing field or one of another type is an exception.
* `enteredScores` are the scores that are summed up, `aspectScores` those the report and
  the columns are filled from: only the first take the key-normalized pitch score.
* A `FeedbackReport` is the text report up to the wording: what each sentence says and the numbers
  that stand in it, rounded as they are printed.  The templates of the two locales are left out.
-/
import VocalCoach.Completion
import VocalCoach.Constants
import VocalCoach.Interpolation
import Mathlib.Algebra.BigOperators.Group.List.Basic

namespace VocalCoach.Pipeline.Completion

open Interpolation

/-! ## The report -/

inductive Tier
  | excellent
  | good
  | fair
  | poor
  deriving DecidableEq, Repr

/-- `_tier`. -/
def tier (score : ℚ) : Tier :=
  if feedbackExcellentThreshold ≤ score then .excellent
  else if feedbackGoodThreshold ≤ score then .good
  else if feedbackFairThreshold ≤ score then .fair
  else .poor

/-- `{x:.0f}`: the whole number that is printed. -/
def printWhole (x : ℚ) : ℤ := roundHalfEven x

/-- `{x:.2f}`: the hundredths that are printed. -/
def printHundredths (x : ℚ) : ℤ := roundHalfEven (x * 100)

/-- The `detected`, `rate_hz` and `depth_cents` of one side. -/
structure VibratoProfile where
  detected : Bool
  rateHz : Option ℚ
  depthCents : Option ℚ
  deriving DecidableEq, Repr

/-- Which template a paragraph takes, with the numbers it prints. -/
inductive Feedback
  | pitch (tier : Tier) (cents : ℤ)
  | rhythm (tier : Tier) (offsetMs : ℤ) (within total : ℚ)
  | breathNoPauses
  | breath (tier : Tier) (matched total : ℚ)
  | dynamics (tier : Tier) (correlation : ℤ)
  | vibratoUserAdded
  | vibratoNeither
  | vibratoUserMissing
  | vibratoCloseMatch
  /-- Which of the two differ, and whether the user's is the greater. -/
  | vibratoDiffers (rateFaster depthWider : Option Bool)
  | timbre (close : Bool)
  deriving DecidableEq, Repr

/-- A paragraph on one aspect. -/
structure Paragraph where
  aspect : String
  score : ℤ
  body : Feedback
  deriving DecidableEq, Repr

/-- `build_feedback_report`, up to the wording. -/
structure FeedbackReport where
  locale : String
  overall : ℤ
  focus : String
  focusScore : ℤ
  backgroundMusicWarning : Bool
  paragraphs : List Paragraph
  unavailable : List (String × String)
  deriving DecidableEq, Repr

/-! ## Data of stages -/

/-- `ConfidenceLevel`. -/
inductive ConfidenceLevel
  | low
  | medium
  | high
  deriving DecidableEq, Repr

/-- What a field of the data of a stage holds. -/
inductive Datum
  | null
  | bool (b : Bool)
  | number (x : ℚ)
  | text (s : String)
  | texts (l : List String)
  | level (l : ConfidenceLevel)
  | vibrato (profile : VibratoProfile)
  | numbers (l : List (String × ℚ))
  | levels (l : List (String × ConfidenceLevel))
  | reasons (l : List (String × String))
  | curve (hz : List (Option ℚ))
  | report (r : FeedbackReport)
  deriving DecidableEq, Repr

/-- `float(x)`. -/
def Datum.float : Datum → Option ℚ
  | .number x => some x
  | .bool b => some (if b then 1 else 0)
  | _ => none

/-- `bool(x)` of a number, a flag or `None`. -/
def Datum.truthy : Datum → Bool
  | .null => false
  | .bool b => b
  | .number x => x ≠ 0
  | _ => true

variable (data : Fields Datum)

/-- `float(data[key])`. -/
def number (key : String) : Option ℚ := (data key).bind Datum.float

/-- `bool(data[key])`. -/
def flag (key : String) : Option Bool := (data key).map Datum.truthy

/-- `data[key]`, a profile. -/
def profile (key : String) : Option VibratoProfile :=
  match data key with
  | some (.vibrato p) => some p
  | _ => none

/-- `data[key]`, a list of warnings. -/
def warningsOf (key : String) : Option (List String) :=
  match data key with
  | some (.texts l) => some l
  | _ => none

/-- `context.result(stage).data`. -/
def dataOf (completed : Completed (Fields Datum)) (stage : String) : Option (Fields Datum) :=
  (completed stage).map fun r => r.data.getD fun _ => none

/-! ## Feedback -/

/-- `_vibrato_outcome_key`; comparing profiles without a rate or a depth is an exception. -/
def vibratoOutcome (user reference : VibratoProfile) : Option Feedback := do
  let rateDiff := (← user.rateHz) - (← reference.rateHz)
  let depthDiff := (← user.depthCents) - (← reference.depthCents)
  pure (.vibratoDiffers
    (if vibratoRateToleranceHz < |rateDiff| then some (0 < rateDiff) else none)
    (if vibratoDepthToleranceCents < |depthDiff| then some (0 < depthDiff) else none))

/-- `_vibrato_feedback`. -/
def vibratoFeedback : Option Feedback := do
  let user ← profile data "user"
  let reference ← profile data "reference"
  if ¬ reference.detected then
    pure (if user.detected then .vibratoUserAdded else .vibratoNeither)
  else if ¬ user.detected then pure .vibratoUserMissing
  else
    let score ← number data "score"
    if tier score = .excellent ∨ tier score = .good then pure .vibratoCloseMatch
    else vibratoOutcome user reference

/-- `_ASPECT_FEEDBACK`. -/
def aspectFeedback (aspect : String) : Option Feedback :=
  match aspect with
  | "pitch" => do
      let cents ← number data "mean_abs_cents"
      pure (.pitch (tier (← number data "score")) (printWhole cents))
  | "rhythm" => do
      let offsetMs ← number data "mean_abs_offset_ms"
      let within ← number data "onsets_within_tolerance"
      let total ← number data "reference_onset_count"
      pure (.rhythm (tier (← number data "score")) (printWhole offsetMs) within total)
  | "breath" => do
      let matched ← number data "matched_pauses"
      let total ← number data "reference_pause_count"
      if total = 0 then pure .breathNoPauses
      else pure (.breath (tier (← number data "score")) matched total)
  | "dynamics" => do
      let correlation ← number data "correlation"
      pure (.dynamics (tier (← number data "score")) (printHundredths correlation))
  | "vibrato" => vibratoFeedback data
  | "timbre" => do
      let score ← number data "score"
      pure (.timbre (tier score = .excellent ∨ tier score = .good))
  | _ => none

/-! ## Scores -/

/-- `MODE_ASPECTS`. -/
def modeAspects : Mode → List String
  | .clean => aspects
  | .mixed => ["pitch", "rhythm", "dynamics", "vibrato"]

/-- `PROFILE_NAME_BY_MODE`. -/
def profileName : Mode → String
  | .clean => "clean_v1"
  | .mixed => "mixed_v1"

/-- `unavailable_aspects_for`. -/
def unavailableAspectsFor (mode : Mode) : List (String × String) :=
  (aspects.filter (· ∉ modeAspects mode)).map fun aspect =>
    (aspect, "NOT_MEASURABLE_WITH_ACCOMPANIMENT")

/-- The `{aspect: float(result.data["score"])}` of aggregation and report. -/
def aspectScores (completed : Completed (Fields Datum)) (mode : Mode) :
    Option (List (String × ℚ)) :=
  (modeAspects mode).mapM fun aspect => do
    let data ← dataOf completed aspect
    pure (aspect, ← number data "score")

/-- The pitch score that is substituted, if one is. -/
def adjustedScore (completed : Completed (Fields Datum)) : Option (Option ℚ) := do
  let data ← dataOf completed "key_normalization"
  if ← flag data "applied" then
    let adjusted ← data "adjusted_score"
    if adjusted = .null then pure none else adjusted.float.map some
  else pure none

/-- `aspect_scores["pitch"] = ...`. -/
def substitutePitch (adjusted : Option ℚ) (scores : List (String × ℚ)) : List (String × ℚ) :=
  match adjusted with
  | none => scores
  | some score => scores.map fun p => if p.1 = "pitch" then (p.1, score) else p

/-- The scores that enter `overall_score`. -/
def enteredScores (completed : Completed (Fields Datum)) (mode : Mode) :
    Option (List (String × ℚ)) := do
  let scores ← aspectScores completed mode
  let adjusted ← adjustedScore completed
  pure (substitutePitch adjusted scores)

/-- `weighted_overall_score`. -/
def weightedOverallScore (scores weights : List (String × ℚ)) (mode : Mode) : Option ℚ := do
  let terms ← (modeAspects mode).mapM fun aspect => do
    pure ((← scores.lookup aspect) * (← weights.lookup aspect))
  pure (roundTenth terms.sum)

/-- `min(aspect_scores, key=...)`: the first of the least. -/
def focusAspect : List (String × ℚ) → Option (String × ℚ)
  | [] => none
  | first :: rest =>
      some (rest.foldl (fun best p => if p.2 < best.2 then p else best) first)

/-- `build_feedback_report`. -/
def buildFeedbackReport (completed : Completed (Fields Datum)) (overallScore : ℚ) (mode : Mode)
    (backgroundMusicWarning : Bool) (locale : String) : Option FeedbackReport := do
  let scores ← aspectScores completed mode
  let focus ← focusAspect scores
  let paragraphs ← scores.mapM fun p => do
    let data ← dataOf completed p.1
    pure { aspect := p.1, score := printWhole p.2, body := ← aspectFeedback data p.1 }
  pure
    { locale
      overall := printWhole overallScore
      focus := focus.1
      focusScore := printWhole focus.2
      backgroundMusicWarning
      paragraphs
      unavailable := unavailableAspectsFor mode }

/-! ## Confidence -/

/-- `_step_down`. -/
def ConfidenceLevel.stepDown : ConfidenceLevel → ConfidenceLevel
  | .high => .medium
  | .medium => .low
  | .low => .low

/-- `ConfidenceSignals`. -/
structure ConfidenceSignals where
  mode : Mode
  accompanimentInClean : Bool
  voicedRatio : ℚ
  alignmentCost : ℚ
  keyShiftOutOfRange : Bool
  lengthMismatch : Bool
  referenceStartOffsetDetected : Bool
  deriving DecidableEq, Repr

/-- `ConfidenceResult`. -/
structure ConfidenceResult where
  overall : ConfidenceLevel
  aspectConfidence : List (String × ConfidenceLevel)
  warnings : List String
  deriving DecidableEq, Repr

/-- What `compute_confidence` steps down for, in its order, with the warnings. -/
def ConfidenceSignals.triggered (signals : ConfidenceSignals) : List String :=
  [(signals.accompanimentInClean, "ACCOMPANIMENT_IN_CLEAN_MODE"),
    (decide (signals.voicedRatio < confidenceLowVoicedRatio), "LITTLE_VOICE_DETECTED"),
    (decide (confidenceWeakAlignmentCost < signals.alignmentCost), "WEAK_ALIGNMENT"),
    (signals.keyShiftOutOfRange, "KEY_SHIFT_OUT_OF_RANGE"),
    (signals.lengthMismatch, "LENGTH_MISMATCH_PARTIAL_ANALYSIS"),
    (signals.referenceStartOffsetDetected, "REFERENCE_START_OFFSET_DETECTED")].filterMap
    fun trigger => if trigger.1 then some trigger.2 else none

/-- `compute_confidence`. -/
def computeConfidence (signals : ConfidenceSignals) : ConfidenceResult :=
  let start : ConfidenceLevel := if signals.mode = .mixed then .medium else .high
  let overall := signals.triggered.foldl (fun level _ => level.stepDown) start
  { overall
    aspectConfidence := (modeAspects signals.mode).map fun aspect =>
      (aspect,
        if signals.mode = .mixed ∧ signals.voicedRatio < confidenceLowVoicedRatio ∧
            (aspect = "pitch" ∨ aspect = "vibrato") then overall.stepDown
        else overall)
    warnings := signals.triggered }

/-! ## `AggregateStage` -/

/-- What the stage is made with. -/
structure AggregateSettings where
  weightsByMode : Mode → List (String × ℚ)
  scoringVersion : String

/-- `accompaniment_in_clean`. -/
def accompanimentInClean (completed : Completed (Fields Datum)) (mode : Mode) : Option Bool :=
  if mode = .clean then
    (dataOf completed "recording_condition").bind (flag · "accompaniment_detected")
  else some false

/-- The signals `AggregateStage.run` gathers. -/
def confidenceSignals (completed : Completed (Fields Datum)) (mode : Mode) :
    Option ConfidenceSignals := do
  let accompaniment ← accompanimentInClean completed mode
  let pitch ← dataOf completed "pitch"
  let align ← dataOf completed "align"
  let keyNormalization ← dataOf completed "key_normalization"
  let referenceStartOffset ← number align "reference_start_offset_seconds"
  pure
    { mode
      accompanimentInClean := accompaniment
      voicedRatio := ← number pitch "voiced_fraction"
      alignmentCost := ← number align "normalized_distance"
      keyShiftOutOfRange := ← flag keyNormalization "out_of_range"
      lengthMismatch := ← flag align "length_mismatch"
      referenceStartOffsetDetected := decide (0 < referenceStartOffset) }

/-- What `AggregateStage.run` copies from the data of `recording_condition`, `pitch` and
`key_normalization`. -/
def copiedFields (completed : Completed (Fields Datum)) : Option (List (String × Datum)) := do
  let recordingCondition ← dataOf completed "recording_condition"
  let pitch ← dataOf completed "pitch"
  let keyNormalization ← dataOf completed "key_normalization"
  pure
    [("effective_mode", ← recordingCondition "effective_mode"),
      ("key_shift_semitones", ← keyNormalization "key_shift_semitones"),
      ("accompaniment_level", ← recordingCondition "accompaniment_level"),
      ("voiced_ratio", ← pitch "voiced_fraction")]

/-- `AggregateStage.run`, up to its time. -/
def aggregateRun (settings : AggregateSettings) (c : Context (Job Datum) (Fields Datum)) :
    Option (Fields Datum) := do
  let mode := c.job.mode
  let entered ← enteredScores c.completed mode
  let overallScore ← weightedOverallScore entered (settings.weightsByMode mode) mode
  let signals ← confidenceSignals c.completed mode
  let recordingCondition ← dataOf c.completed "recording_condition"
  let warnings ← warningsOf recordingCondition "warnings"
  let report ← buildFeedbackReport c.completed overallScore mode signals.accompanimentInClean
    c.job.locale
  let copied ← copiedFields c.completed
  let confidence := computeConfidence signals
  let fields : List (String × Datum) :=
    [("overall_score", .number overallScore),
      ("feedback_text", .report report),
      ("scoring_version", .text settings.scoringVersion),
      ("weights_profile", .text (profileName mode)),
      ("aspect_scores", .numbers entered),
      ("unavailable_aspects", .reasons (unavailableAspectsFor mode)),
      ("confidence", .level confidence.overall),
      ("aspect_confidence", .levels confidence.aspectConfidence),
      ("warnings", .texts (warnings ++ confidence.warnings)),
      ("alignment_cost", .number signals.alignmentCost)] ++ copied
  pure fun key => fields.lookup key

/-! ## The pipeline around it -/

/-- A stage whose `run` is left open. -/
def analysisStage (produce : String → Context (Job Datum) (Fields Datum) → ℕ × Option (Fields Datum))
    (name : String) (modes : List Mode) : PipelineStage (Job Datum) (Fields Datum) :=
  { name, modes, produce := produce name }

/-- `AggregateStage`. -/
def aggregateStage (settings : AggregateSettings)
    (produce : String → Context (Job Datum) (Fields Datum) → ℕ × Option (Fields Datum)) :
    PipelineStage (Job Datum) (Fields Datum) :=
  { name := "aggregate"
    produce := fun c => ((produce "aggregate" c).1, aggregateRun settings c) }

/-- The five aspect stages of `build_stages`. -/
def aspectStages (produce : String → Context (Job Datum) (Fields Datum) → ℕ × Option (Fields Datum)) :
    List (PipelineStage (Job Datum) (Fields Datum)) :=
  [analysisStage produce "rhythm" [.clean, .mixed], analysisStage produce "vibrato" [.clean, .mixed],
    analysisStage produce "dynamics" [.clean, .mixed], analysisStage produce "timbre" [.clean],
    analysisStage produce "breath" [.clean]]

/-- `build_stages`, before the aggregation. -/
def measuringStages
    (produce : String → Context (Job Datum) (Fields Datum) → ℕ × Option (Fields Datum))
    (parallelAspects : Bool) : List (Entry (Job Datum) (Fields Datum)) :=
  [.stage (analysisStage produce "preprocess" [.clean, .mixed]),
    .stage (analysisStage produce "separate_recording" [.mixed]),
    .stage (analysisStage produce "features" [.clean, .mixed]),
    .stage (analysisStage produce "align" [.clean, .mixed]),
    .stage (analysisStage produce "pitch" [.clean, .mixed]),
    .stage (analysisStage produce "key_normalization" [.clean, .mixed])] ++
  (if parallelAspects then [.group (aspectStages produce)]
    else (aspectStages produce).map Entry.stage) ++
  [.stage (analysisStage produce "recording_condition" [.clean, .mixed])]

/-- `build_stages`. -/
def buildStages (settings : AggregateSettings)
    (produce : String → Context (Job Datum) (Fields Datum) → ℕ × Option (Fields Datum))
    (parallelAspects : Bool) : List (Entry (Job Datum) (Fields Datum)) :=
  measuringStages produce parallelAspects ++ [.stage (aggregateStage settings produce)]

/-- The conversions of `_persist_scores`; a text is told from its wording by nothing here, and
what `model_validate` makes of a curve is the curve. -/
def conversions : Conversions Datum where
  float d := d.float.map .number
  optionalFloat d := if d = .null then some .null else d.float.map .number
  str := some
  dict d :=
    match d with
    | .numbers _ | .levels _ | .reasons _ => some d
    | _ => none
  list d :=
    match d with
    | .texts _ => some d
    | _ => none
  pianoRoll := some
  pitchCurve := some

/-- The handler of the worker. -/
def analysisHandler (settings : AggregateSettings)
    (produce : String → Context (Job Datum) (Fields Datum) → ℕ × Option (Fields Datum))
    (parallelAspects : Bool) (modelVersions : List (String × String)) : Handler Datum :=
  { stages := buildStages settings produce parallelAspects, conversions, modelVersions }

end VocalCoach.Pipeline.Completion
