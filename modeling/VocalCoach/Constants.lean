/-
# Fixed constants

The constants of `vocalcoach/constants.py`, `queue/consumer.py` and
`queue/scheduler.py` that the modelled code reads, as exact rationals and naturals.
-/
import Mathlib.Data.Rat.Defs

namespace VocalCoach

/-! ## Alignment and pitch (`constants.py`) -/

def pitchHopSeconds : ℚ := 1 / 100

theorem pitchHopSeconds_pos : 0 < pitchHopSeconds := by decide +kernel

def featuresHopSeconds : ℚ := 1 / 20

def minVoicedFraction : ℚ := 1 / 20

def alignWindowSeconds : ℚ := 10

def alignRefineWindowSeconds : ℚ := 1 / 5

def alignPitchMaxNormalizedDistance : ℚ := 9 / 20

def dtwMaxCells : ℕ := 50000000

def alignMaxStartOffsetSeconds : ℚ := 60

def alignStartOffsetCandidateCount : ℕ := 3

def pitchFminHz : ℚ := 65

/-! ## Aspect scores (`constants.py`) -/

/-- The mean deviation that scores zero. -/
def pitchScoreCentsForZero : ℚ := 100

def rhythmOnsetToleranceMs : ℚ := 200

/-- Decibels under the peak below which a frame is silent. -/
def breathSilenceRelativeDb : ℚ := -35

def breathMinPauseSeconds : ℚ := 1 / 5

def breathPauseMatchToleranceSeconds : ℚ := 1 / 2

def vibratoRateToleranceHz : ℚ := 2

def vibratoDepthToleranceCents : ℚ := 50

/-! ## Report and confidence (`constants.py`) -/

def feedbackExcellentThreshold : ℚ := 90

def feedbackGoodThreshold : ℚ := 75

def feedbackFairThreshold : ℚ := 50

def confidenceLowVoicedRatio : ℚ := 1 / 2

def confidenceWeakAlignmentCost : ℚ := 45

/-! ## Queue reliability (`constants.py`, `queue/consumer.py`) -/

/-- Seconds an entry of either stream may sit unacknowledged before a reclaim. -/
def pendingClaimMinIdle : ℕ := 20 * 60

def songsPrepPendingClaimMinIdle : ℕ := 20 * 60

def maxClaimAttempts : ℕ := 3

def reclaimBatchSize : ℕ := 100

end VocalCoach
