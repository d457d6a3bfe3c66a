/-
# The unit-circle pitch embedding

`dsp/pitch_embedding.py` and `cents_deviation` of `dsp/pitch_scoring.py`, over the
reals.  A voiced frame embeds to the point of the unit circle its pitch class names, an
unvoiced frame to the centre; `embeddingDistance` is the Euclidean distance the banded
DTW kernel computes on two embedded frames.  The alignment development is generic in
that distance; the lemmas below pin down its values where no trigonometry is needed.
-/
import VocalCoach.Constants
import Mathlib.Analysis.SpecialFunctions.Log.Base
import Mathlib.Analysis.SpecialFunctions.Trigonometric.Basic

namespace VocalCoach

/-- Row `i` of `embed_pitch_curve`. -/
noncomputable def embedPitch : Option ℝ → ℝ × ℝ
  | none => (0, 0)
  | some value =>
      if value ≤ 0 then (0, 0)
      else
        let theta := 2 * Real.pi * Int.fract (Real.logb 2 (value / (pitchFminHz : ℝ)))
        (Real.cos theta, Real.sin theta)

/-- `cents_deviation`. -/
noncomputable def centsDeviation (userHz referenceHz : ℝ) : ℝ :=
  1200 * Real.logb 2 (userHz / referenceHz)

/-- The distance of two frames: the innermost loop of the DTW kernel, on embeddings. -/
noncomputable def embeddingDistance (x y : Option ℝ) : ℝ :=
  √(((embedPitch x).1 - (embedPitch y).1) ^ 2 + ((embedPitch x).2 - (embedPitch y).2) ^ 2)

theorem embeddingDistance_self (x : Option ℝ) : embeddingDistance x x = 0 := by
  simp [embeddingDistance]

theorem embeddingDistance_comm (x y : Option ℝ) :
    embeddingDistance x y = embeddingDistance y x := by
  unfold embeddingDistance
  congr 1
  ring

/-- A voiced frame lies on the unit circle. -/
theorem embedPitch_voiced {value : ℝ} (h : 0 < value) :
    (embedPitch (some value)).1 ^ 2 + (embedPitch (some value)).2 ^ 2 = 1 := by
  simp only [embedPitch, if_neg (not_le.mpr h)]
  exact Real.cos_sq_add_sin_sq _

/-- `UNVOICED_TO_VOICED_DISTANCE`: an unvoiced frame is at distance `1` from every
voiced one, whatever its pitch. -/
theorem embeddingDistance_unvoiced_voiced {value : ℝ} (h : 0 < value) :
    embeddingDistance none (some value) = 1 := by
  have hunit := embedPitch_voiced h
  unfold embeddingDistance
  rw [show embedPitch none = (0, 0) from rfl]
  simp only [zero_sub, neg_sq, hunit, Real.sqrt_one]

/-- The frame distance of curves that hold a single pitch: only the voicing differs. -/
def voicingDistance (x y : Option ℚ) : ℚ := if x.isSome = y.isSome then 0 else 1

/-- On curves that hold a single pitch, `voicingDistance` is the embedding distance. -/
theorem embeddingDistance_eq_voicingDistance {value : ℚ} (h : 0 < value) {x y : Option ℚ}
    (hx : ∀ hz ∈ x, hz = value) (hy : ∀ hz ∈ y, hz = value) :
    embeddingDistance (x.map fun hz : ℚ => (hz : ℝ)) (y.map fun hz : ℚ => (hz : ℝ))
      = (voicingDistance x y : ℝ) := by
  have hreal : (0 : ℝ) < (value : ℝ) := by exact_mod_cast h
  have hvoiced := embeddingDistance_unvoiced_voiced hreal
  cases x with
  | none =>
    cases y with
    | none => simp [voicingDistance, embeddingDistance_self]
    | some b => obtain rfl := hy b rfl; simpa [voicingDistance] using hvoiced
  | some a =>
    obtain rfl := hx a rfl
    cases y with
    | none => simpa [voicingDistance, embeddingDistance_comm] using hvoiced
    | some b => obtain rfl := hy b rfl; simp [voicingDistance, embeddingDistance_self]

/-- Every embedded frame lies in the closed unit disc. -/
theorem embedPitch_norm_le (x : Option ℝ) :
    (embedPitch x).1 ^ 2 + (embedPitch x).2 ^ 2 ≤ 1 := by
  cases x with
  | none => simp [embedPitch]
  | some value =>
    by_cases h : value ≤ 0
    · simp [embedPitch, h]
    · exact (embedPitch_voiced (not_le.mp h)).le

/-- **The embedding bounds every frame cost by `2`.** -/
theorem embeddingDistance_le_two (x y : Option ℝ) : embeddingDistance x y ≤ 2 := by
  have hx := embedPitch_norm_le x
  have hy := embedPitch_norm_le y
  rw [embeddingDistance, Real.sqrt_le_left (by norm_num)]
  nlinarith [sq_nonneg ((embedPitch x).1 + (embedPitch y).1),
    sq_nonneg ((embedPitch x).2 + (embedPitch y).2)]

end VocalCoach
