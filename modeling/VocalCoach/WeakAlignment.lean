/-
# The soft trigger for a weak alignment

`AlignStage` accepts an alignment, directly or at a start offset, if its normalized distance is
within `ALIGN_PITCH_MAX_NORMALIZED_DISTANCE`; `compute_confidence` steps down for a cost above
`CONFIDENCE_WEAK_ALIGNMENT_COST`.  `constants.py` says that each trigger lies below the hard
threshold for the same signal.  This one lies a hundred times above it: no alignment that is
accepted sets it off (`weakAlignment_never`), and no distance on the embedding could.
-/
import VocalCoach.Aggregation
import VocalCoach.Align

namespace VocalCoach

open Pipeline.Completion (ConfidenceSignals computeConfidence)

section Accepted

variable {Hz K : Type*} [Field K] [LinearOrder K] {dist : Option Hz → Option Hz → K}
  {userHz referenceHz : List (Option Hz)} {argsort : List (WithTop K) → List ℕ}
  {original : AlignError K} {attempt : AlignAttempt K} {k : ℕ}

/-! ## What is accepted is within the ceiling -/

theorem directAttempt_withinCeiling (h : directAttempt dist userHz referenceHz = .ok attempt) :
    withinCeiling attempt := by
  unfold directAttempt at h
  split at h
  next => cases h
  next =>
    split at h
    next hwithin =>
      cases h
      exact hwithin
    next => cases h

theorem tryCandidates_withinCeiling {scores : List (WithTop K)} {candidates : List ℕ}
    (h : tryCandidates dist userHz referenceHz scores original candidates = .ok (k, attempt)) :
    withinCeiling attempt := by
  induction candidates with
  | nil => cases h
  | cons candidate rest ih =>
    rw [tryCandidates] at h
    split at h
    next => exact ih h
    next =>
      split at h
      next =>
        split at h
        next => exact ih h
        next => cases h
      next =>
        split at h
        next hwithin =>
          cases h
          exact hwithin
        next => exact ih h

theorem findReferenceStartOffset_withinCeiling
    (h : findReferenceStartOffset dist argsort userHz referenceHz original = .ok (k, attempt)) :
    withinCeiling attempt := by
  unfold findReferenceStartOffset at h
  dsimp only at h
  split_ifs at h
  exact tryCandidates_withinCeiling h

theorem alignStageRun_withinCeiling {data : AlignData Hz K}
    (h : alignStageRun dist argsort userHz referenceHz = .ok data) :
    data.normalizedDistance ≤ ((alignPitchMaxNormalizedDistance : ℚ) : K) := by
  unfold alignStageRun at h
  split at h
  next => cases h
  next =>
    split at h
    next haccepted =>
      cases h
      exact directAttempt_withinCeiling haccepted
    next e _ =>
      split at h
      next =>
        cases hfind : findReferenceStartOffset dist argsort userHz referenceHz e with
        | error e' =>
          rw [hfind] at h
          cases h
        | ok found =>
          rw [hfind] at h
          cases h
          exact findReferenceStartOffset_withinCeiling hfind
      next => cases h

end Accepted

/-! ## What `compute_confidence` makes of it -/

/-- A cost that does not exceed the trigger counts like none at all. -/
theorem computeConfidence_of_le (signals : ConfidenceSignals)
    (h : signals.alignmentCost ≤ confidenceWeakAlignmentCost) :
    "WEAK_ALIGNMENT" ∉ (computeConfidence signals).warnings ∧
      computeConfidence signals = computeConfidence { signals with alignmentCost := 0 } := by
  have hweak : decide (confidenceWeakAlignmentCost < signals.alignmentCost) = false :=
    decide_eq_false (not_lt.mpr h)
  have hzero : decide (confidenceWeakAlignmentCost < 0) = false := by decide +kernel
  have htriggered : ({ signals with alignmentCost := 0 } : ConfidenceSignals).triggered =
      signals.triggered := by
    unfold ConfidenceSignals.triggered
    rw [hweak, hzero]
  constructor
  · show "WEAK_ALIGNMENT" ∉ signals.triggered
    unfold ConfidenceSignals.triggered
    rw [hweak]
    intro hmem
    obtain ⟨⟨on, warning⟩, htrigger, hon⟩ := List.mem_filterMap.mp hmem
    rw [Option.ite_none_right_eq_some] at hon
    obtain ⟨hon, hwarning⟩ := hon
    dsimp only at hon hwarning
    rw [Option.some.inj hwarning, hon] at htrigger
    simp at htrigger
  · unfold computeConfidence
    rw [htriggered]

section Never

variable {Hz K : Type*} [Field K] [LinearOrder K] [IsStrictOrderedRing K]

/-- The distance does not set off the trigger, whatever the other signals are. -/
def NeverWeak (distance : K) : Prop :=
  ¬ ((confidenceWeakAlignmentCost : ℚ) : K) < distance ∧
    ∀ signals : ConfidenceSignals, (signals.alignmentCost : K) = distance →
      "WEAK_ALIGNMENT" ∉ (computeConfidence signals).warnings ∧
      computeConfidence signals = computeConfidence { signals with alignmentCost := 0 }

/-- The ceiling is far below the trigger. -/
theorem neverWeak_of_le {distance : K}
    (h : distance ≤ ((alignPitchMaxNormalizedDistance : ℚ) : K)) : NeverWeak distance := by
  have hconstants : alignPitchMaxNormalizedDistance ≤ confidenceWeakAlignmentCost := by
    decide +kernel
  have hcost : distance ≤ ((confidenceWeakAlignmentCost : ℚ) : K) :=
    h.trans (by exact_mod_cast hconstants)
  refine ⟨not_lt.mpr hcost, fun signals heq => computeConfidence_of_le signals ?_⟩
  rw [← heq] at hcost
  exact_mod_cast hcost

/-- **No alignment that is accepted is weak.**  Whatever the curves are and however the
distance of frames is measured: neither the direct attempt, nor one at a start offset, nor what
`AlignStage` stores has a distance that sets off the trigger, and the confidence is what it
would be for a perfect alignment. -/
theorem weakAlignment_never (dist : Option Hz → Option Hz → K)
    (argsort : List (WithTop K) → List ℕ) (userHz referenceHz : List (Option Hz)) :
    (∀ attempt, directAttempt dist userHz referenceHz = .ok attempt →
      NeverWeak attempt.fine.normalizedDistance) ∧
    (∀ original k attempt,
      findReferenceStartOffset dist argsort userHz referenceHz original = .ok (k, attempt) →
      NeverWeak attempt.fine.normalizedDistance) ∧
    ∀ data, alignStageRun dist argsort userHz referenceHz = .ok data →
      NeverWeak data.normalizedDistance := by
  refine ⟨fun attempt h => ?_, fun original k attempt h => ?_, fun data h => ?_⟩
  · exact neverWeak_of_le (directAttempt_withinCeiling h)
  · exact neverWeak_of_le (findReferenceStartOffset_withinCeiling h)
  · exact neverWeak_of_le (alignStageRun_withinCeiling h)

end Never

/-- Every second frame of the reference is silent. -/
def halfSilentHz : List (Option ℚ) :=
  [some 220, none, some 220, none, some 220, none, some 220, none, some 220]

/-- The alignment with it, close to the ceiling. -/
def halfSilentAlignment : AlignData ℚ ℚ :=
  .ofAttempt (List.replicate 9 (some 220)) 0
    ⟨⟨List.range 9, List.range 9, 4 / 9⟩, ⟨[0, 1], [0, 1], 1 / 2⟩, false⟩

theorem alignStageRun_halfSilent :
    alignStageRun voicingDistance argsort (List.replicate 9 (some 220)) halfSilentHz =
      .ok halfSilentAlignment := by
  decide +kernel

theorem weakAlignment_never_halfSilent : NeverWeak halfSilentAlignment.normalizedDistance :=
  (weakAlignment_never voicingDistance argsort (List.replicate 9 (some 220)) halfSilentHz).2.2 _
    alignStageRun_halfSilent

/-- It is accepted with full confidence; and none on the embedding is both accepted and weak. -/
theorem not_exists_weakAlignment :
    (∃ data, alignStageRun voicingDistance argsort (List.replicate 9 (some 220)) halfSilentHz
        = .ok data ∧ data.normalizedDistance = 4 / 9 ∧
      computeConfidence
        { mode := .clean, accompanimentInClean := false, voicedRatio := 1,
          alignmentCost := data.normalizedDistance, keyShiftOutOfRange := false,
          lengthMismatch := false, referenceStartOffsetDetected := false } =
        { overall := .high
          aspectConfidence := (Pipeline.Completion.modeAspects .clean).map fun a => (a, .high)
          warnings := [] }) ∧
    ¬ ∃ (sort : List (WithTop ℝ) → List ℕ) (userHz referenceHz : List (Option ℝ))
        (data : AlignData ℝ ℝ) (signals : ConfidenceSignals),
      alignStageRun embeddingDistance sort userHz referenceHz = .ok data ∧
      (signals.alignmentCost : ℝ) = data.normalizedDistance ∧
      "WEAK_ALIGNMENT" ∈ (computeConfidence signals).warnings := by
  refine ⟨⟨halfSilentAlignment, alignStageRun_halfSilent, rfl, by decide +kernel⟩, ?_⟩
  rintro ⟨sort, userHz, referenceHz, data, signals, haccepted, hcost, hweak⟩
  have hnever := neverWeak_of_le (alignStageRun_withinCeiling haccepted)
  exact (hnever.2 signals hcost).1 hweak

end VocalCoach
