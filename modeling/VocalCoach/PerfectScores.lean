/-
# What a perfect take scores

The reference, handed in as the recording, goes through the whole of the scoring: it is
aligned with itself frame by frame (`alignStageRun_octaves`), the time map is the identity as
far as the frames go, and every aspect stage compares each thing with itself.
`perfectTake_scores` is the result; with the weights of an accepted configuration the overall
score is full as well.

`aspectStages_range` is the other end of the scale: whatever was recorded, no aspect score
leaves `0` to `100`.
-/
import VocalCoach.KeyNormalization
import VocalCoach.PauseComparison
import VocalCoach.PerfectTake
import VocalCoach.RecordingCondition
import VocalCoach.ScoringWeights
import VocalCoach.Vibrato

namespace VocalCoach

open Interpolation Similarity Pipeline Pipeline.Completion

/-! ## Scores at the ends of the scale -/

theorem roundTenth_natCast (n : ℕ) : roundTenth n = n := by
  have htenths : (n : ℚ) * 10 = (n * 10 : ℕ) := by push_cast; rfl
  rw [roundTenth, htenths, roundHalfEven_natCast]
  push_cast
  exact mul_div_cancel_right₀ _ (by norm_num)

theorem roundTenth_hundred : roundTenth 100 = 100 := by exact_mod_cast roundTenth_natCast 100

theorem featuresHopSeconds_pos : 0 < featuresHopSeconds := by norm_num [featuresHopSeconds]

theorem roundTenth_percentage {share : ℚ} (hlow : 0 ≤ share) (hhigh : share ≤ 1) :
    0 ≤ roundTenth (100 * (1 - share)) ∧ roundTenth (100 * (1 - share)) ≤ 100 := by
  have hzero : roundTenth 0 = 0 := by exact_mod_cast roundTenth_natCast 0
  constructor
  · rw [← hzero]
    exact roundTenth_mono (by linarith)
  · have hle : roundTenth (100 * (1 - share)) ≤ roundTenth 100 := roundTenth_mono (by linarith)
    rwa [roundTenth_hundred] at hle

theorem meanAbs_nonneg (cents : List ℚ) : 0 ≤ meanAbs cents := by
  have hsum : 0 ≤ (cents.map fun c => |c|).sum := by
    refine List.sum_nonneg fun c hc => ?_
    obtain ⟨x, -, rfl⟩ := List.mem_map.mp hc
    exact abs_nonneg x
  exact div_nonneg hsum (Nat.cast_nonneg _)

theorem pitchScore_range (deviationCents : List (Option ℚ)) :
    0 ≤ pitchScore deviationCents ∧ pitchScore deviationCents ≤ 100 := by
  have hscale : (0 : ℚ) ≤ pitchScoreCentsForZero := by norm_num [pitchScoreCentsForZero]
  unfold pitchScore pitchMeanAbsCents
  split_ifs with hempty
  · norm_num
  · exact roundTenth_percentage (le_min zero_le_one (div_nonneg (meanAbs_nonneg _) hscale))
      (min_le_left _ _)

theorem rhythmRun_range (userOnsets referenceOnsets : List ℚ) (map : TimeMap) :
    0 ≤ (rhythmRun userOnsets referenceOnsets map).score ∧
      (rhythmRun userOnsets referenceOnsets map).score ≤ 100 := by
  have hscale : (0 : ℚ) ≤ rhythmOnsetToleranceMs := by norm_num [rhythmOnsetToleranceMs]
  have hsum : 0 ≤ ((comparedOnsets userOnsets referenceOnsets map).map Prod.snd).sum := by
    refine List.sum_nonneg fun offset hoffset => ?_
    obtain ⟨p, hp, rfl⟩ := List.mem_map.mp hoffset
    obtain ⟨t, -, ht⟩ := List.mem_filterMap.mp hp
    obtain ⟨nearest, -, rfl⟩ := Option.map_eq_some_iff.mp ht
    positivity
  unfold rhythmRun
  dsimp only
  split_ifs with hempty
  · norm_num
  · refine roundTenth_percentage (le_min zero_le_one (div_nonneg ?_ hscale)) (min_le_left _ _)
    exact div_nonneg hsum (Nat.cast_nonneg _)

/-- **Every aspect score is a percentage**, whatever the recording, the reference and the
alignment are. -/
theorem aspectStages_range (deviationCents : List (Option ℚ))
    (userOnsets referenceOnsets userPauses referencePauses : List ℚ)
    (userRms referenceRms : List ℝ) (userMfcc referenceMfcc : List (List ℝ)) (log2 : ℝ → ℝ)
    (userCurve referenceCurve : Vibrato.PitchCurve ℝ) (map : TimeMap) :
    (0 ≤ pitchScore deviationCents ∧ pitchScore deviationCents ≤ 100) ∧
    (0 ≤ (rhythmRun userOnsets referenceOnsets map).score ∧
      (rhythmRun userOnsets referenceOnsets map).score ≤ 100) ∧
    (0 ≤ (breathRun userPauses referencePauses map).score ∧
      (breathRun userPauses referencePauses map).score ≤ 100) ∧
    (∀ data, dynamicsRun Real.sqrt userRms referenceRms map = some data →
      0 ≤ data.score ∧ data.score ≤ 100) ∧
    (∀ data, timbreRun Real.sqrt userMfcc referenceMfcc map = some data →
      0 ≤ data.score ∧ data.score ≤ 100) ∧
    0 ≤ (Vibrato.vibratoRun log2 userCurve referenceCurve).score ∧
      (Vibrato.vibratoRun log2 userCurve referenceCurve).score ≤ 100 :=
  ⟨pitchScore_range _, rhythmRun_range _ _ _, breathScore_range _ _ _,
    fun _ h => dynamicsRun_range h, fun _ h => timbreRun_range isSqrt_sqrt h,
    Vibrato.score_range _ _⟩

/-- Two frames over two others. -/
theorem aspectStages_range_twoFrames :
    let map := TimeMap.fromWarpingPath [0, 1] [0, 1] featuresHopSeconds
    (∃ data, dynamicsRun Real.sqrt [1, 2] [2, 1] map = some data ∧
      0 ≤ data.score ∧ data.score ≤ 100) ∧
    ∃ data, timbreRun Real.sqrt [[1], [2]] [[2], [1]] map = some data ∧
      0 ≤ data.score ∧ data.score ≤ 100 := by
  intro map
  obtain ⟨rms, hrms, -, -⟩ := TimeMap.resampleReferenceOntoUserGrid_eq map [(1 : ℝ), 2] [2, 1]
    featuresHopSeconds (by simp)
  obtain ⟨mfcc, hmfcc, -, -⟩ := TimeMap.resampleReferenceOntoUserGrid_eq map [[(1 : ℝ)], [2]]
    [[2], [1]] featuresHopSeconds (by simp)
  have hdynamics : ∃ data, dynamicsRun Real.sqrt [1, 2] [2, 1] map = some data := by
    unfold dynamicsRun
    rw [hrms]
    exact ⟨_, rfl⟩
  have htimbre : ∃ data, timbreRun Real.sqrt [[1], [2]] [[2], [1]] map = some data := by
    unfold timbreRun
    rw [hmfcc]
    exact ⟨_, rfl⟩
  obtain ⟨dynamics, hdynamics⟩ := hdynamics
  obtain ⟨timbre, htimbre⟩ := htimbre
  obtain ⟨-, -, -, hdynamicsRange, htimbreRange, -⟩ := aspectStages_range [none] [0] [0] [1] [1]
    [1, 2] [2, 1] [[1], [2]] [[2], [1]] id ⟨pitchHopSeconds, []⟩ ⟨pitchHopSeconds, []⟩ map
  exact ⟨⟨dynamics, hdynamics, hdynamicsRange _ hdynamics⟩, timbre, htimbre,
    htimbreRange _ htimbre⟩

/-! ## Each stage on a perfect take -/

/-- A time map that is the identity up to some time. -/
def IdentityUpTo (last : ℚ) (map : TimeMap) : Prop :=
  ∀ t, 0 ≤ t → t ≤ last → map.userToReference t = t ∧ map.referenceToUser t = t

section Identity

variable {map : TimeMap} {last : ℚ}

/-- Every frame up to the last one reads itself. -/
theorem IdentityUpTo.referenceIndex (h : IdentityUpTo last map) {hop : ℚ} (hhop : 0 < hop) {i : ℕ}
    (hi : i * hop ≤ last) : map.referenceIndex hop i = i := by
  rw [TimeMap.referenceIndex, (h _ (mul_nonneg (Nat.cast_nonneg i) hhop.le) hi).1,
    mul_div_cancel_right₀ _ hhop.ne', roundHalfEven_natCast]

/-- A series resampled through it is the series. -/
theorem IdentityUpTo.resample {α : Type*} (h : IdentityUpTo last map) {hop : ℚ} (hhop : 0 < hop)
    {series : List α} (hlast : (series.length - 1 : ℕ) * hop ≤ last) :
    map.resampleReferenceOntoUserGrid series series hop = some series := by
  by_cases hne : series = []
  · subst hne
    rfl
  · obtain ⟨aligned, haligned, hlength, hread⟩ :=
      TimeMap.resampleReferenceOntoUserGrid_eq map series series hop hne
    rw [haligned]
    congr 1
    refine List.ext_getElem? fun i => ?_
    by_cases hi : i < series.length
    · obtain ⟨k, hk, hindex, hvalue⟩ := hread i hi
      have htime : (i : ℚ) * hop ≤ last := by
        refine le_trans (mul_le_mul_of_nonneg_right ?_ hhop.le) hlast
        exact_mod_cast (by omega : i ≤ series.length - 1)
      rw [h.referenceIndex hhop htime] at hindex
      have hki : k = i := by omega
      rw [hvalue, hki]
    · rw [List.getElem?_eq_none (by omega), List.getElem?_eq_none (by omega)]

/-- The pitch stage compares every frame with itself. -/
theorem IdentityUpTo.pitchStage {Hz : Type*} (h : IdentityUpTo last map)
    {centsDeviation : Hz → Hz → ℚ} (hcents : ∀ x, centsDeviation x x = 0) {hz : List (Option Hz)}
    (hlast : (hz.length - 1 : ℕ) * pitchHopSeconds ≤ last) (hvoiced : ∃ x, some x ∈ hz) :
    (pitchStage centsDeviation hz hz map).score = 100 := by
  have haligned : (alignAndCompare centsDeviation hz hz map pitchHopSeconds).1 = hz := by
    refine List.ext_getElem? fun i => ?_
    by_cases hi : i < hz.length
    · have htime : (i : ℚ) * pitchHopSeconds ≤ last := by
        refine le_trans (mul_le_mul_of_nonneg_right ?_ pitchHopSeconds_pos.le) hlast
        exact_mod_cast (by omega : i ≤ hz.length - 1)
      rw [alignAndCompare_fst_getElem _ _ _ _ _ _ hi, h.referenceIndex pitchHopSeconds_pos htime,
        referenceValue, if_pos (Int.natCast_nonneg i), Int.toNat_natCast,
        List.getElem?_eq_getElem hi]
      rfl
    · rw [List.getElem?_eq_none (by rw [length_alignAndCompare_fst]; omega),
        List.getElem?_eq_none (by omega)]
  have hdeviations : (alignAndCompare centsDeviation hz hz map pitchHopSeconds).2 =
      hz.map fun x => x.map fun _ => 0 := by
    have hself : hz.zip hz = hz.map fun x => (x, x) := by
      simpa using List.zip_map' (f := id) (g := id) (l := hz)
    change List.map _ (hz.zip (alignAndCompare centsDeviation hz hz map pitchHopSeconds).1) = _
    rw [haligned, hself, List.map_map]
    refine List.map_congr_left fun x _ => ?_
    cases x with
    | none => rfl
    | some x => exact congrArg some (hcents x)
  obtain ⟨x, hx⟩ := hvoiced
  have hpresent : presentCents (hz.map fun x => x.map fun _ => (0 : ℚ)) ≠ [] := by
    refine List.ne_nil_of_mem (a := 0) (List.mem_filterMap.mpr ⟨some 0, ?_, rfl⟩)
    exact List.mem_map_of_mem (f := fun x : Option Hz => x.map fun _ => (0 : ℚ)) hx
  have hzeros : ∀ c ∈ presentCents (hz.map fun x => x.map fun _ => (0 : ℚ)), c = 0 := by
    intro c hc
    obtain ⟨c', hc', rfl⟩ := List.mem_filterMap.mp hc
    obtain ⟨y, -, hy⟩ := List.mem_map.mp hc'
    obtain ⟨-, -, rfl⟩ := Option.map_eq_some_iff.mp hy
    rfl
  have hmean : meanAbs (presentCents (hz.map fun x => x.map fun _ => (0 : ℚ))) = 0 := by
    rw [meanAbs, List.sum_eq_zero, zero_div]
    intro y hy
    obtain ⟨c, hc, rfl⟩ := List.mem_map.mp hy
    rw [hzeros c hc, abs_zero]
  have hfull : scoreFromMeanAbsCents 0 = 100 := by simp [scoreFromMeanAbsCents, roundTenth_hundred]
  show pitchScore (alignAndCompare centsDeviation hz hz map pitchHopSeconds).2 = 100
  rw [hdeviations, pitchScore, pitchMeanAbsCents, if_neg (by simpa using hpresent),
    if_neg (by simpa using hpresent), hmean, hfull]

/-- An onset that is there is the nearest one to itself. -/
theorem nearestTo_self {t : ℚ} {candidates : List ℚ} (h : t ∈ candidates) :
    nearestTo t candidates = some t := by
  have hfold : ∀ (rest : List ℚ) (best : ℚ), t ∈ best :: rest →
      rest.foldl (fun best candidate =>
        if |candidate - t| < |best - t| then candidate else best) best = t := by
    intro rest
    induction rest with
    | nil =>
      intro best hmem
      exact (List.mem_singleton.mp hmem).symm
    | cons candidate rest ih =>
      intro best hmem
      rw [List.foldl_cons]
      apply ih
      split_ifs with hcloser
      · -- the old best was not the onset itself
        rcases List.mem_cons.mp hmem with rfl | hmem
        · rw [sub_self, abs_zero] at hcloser
          exact absurd hcloser (not_lt.mpr (abs_nonneg _))
        · exact hmem
      · rcases List.mem_cons.mp hmem with rfl | hmem
        · exact List.mem_cons_self
        · rcases List.mem_cons.mp hmem with rfl | hmem
          · -- so far off as the onset itself: it is the onset
            rw [sub_self, abs_zero, not_lt, abs_nonpos_iff, sub_eq_zero] at hcloser
            rw [hcloser]
            exact List.mem_cons_self
          · exact List.mem_cons_of_mem _ hmem
  cases candidates with
  | nil => cases h
  | cons first rest => exact congrArg some (hfold rest first h)

/-- The rhythm stage finds every onset where it is. -/
theorem IdentityUpTo.rhythmRun (h : IdentityUpTo last map) {onsets : List ℚ} (hne : onsets ≠ [])
    (honsets : ∀ t ∈ onsets, 0 ≤ t ∧ t ≤ last) : (rhythmRun onsets onsets map).score = 100 := by
  have hcompared : (comparedOnsets onsets onsets map).map Prod.snd = onsets.map fun _ => 0 := by
    have hall : comparedOnsets onsets onsets map = onsets.map fun t => (t, 0) := by
      unfold comparedOnsets
      rw [← List.filterMap_eq_map]
      refine List.filterMap_congr fun t ht => ?_
      obtain ⟨hlow, hhigh⟩ := honsets t ht
      dsimp only
      rw [(h t hlow hhigh).2, nearestTo_self ht, Option.map_some, sub_self, abs_zero, zero_mul]
      rfl
    rw [hall, List.map_map]
    rfl
  have hempty : ¬ (onsets.map fun _ => (0 : ℚ)).isEmpty = true := by simpa using hne
  have hfull : scoreFromMeanAbsOffsetMs 0 = 100 := by
    simp [scoreFromMeanAbsOffsetMs, roundTenth_hundred]
  unfold VocalCoach.rhythmRun
  dsimp only
  rw [hcompared, if_neg hempty, if_neg hempty, List.sum_map_zero, zero_div, hfull]

/-- The breath stage matches every pause with itself. -/
theorem IdentityUpTo.breathRun (h : IdentityUpTo last map) {rms : List ℚ}
    (hrms : ∀ level ∈ rms, 0 ≤ level) (hlast : (rms.length - 1 : ℕ) * featuresHopSeconds ≤ last) :
    (breathRun rms rms map).score = 100 := by
  have hhop := featuresHopSeconds_pos
  have hpauses := pauseRegions_pauses hrms hhop
  have hcenter : ∀ region ∈ pauseRegions rms featuresHopSeconds,
      0 ≤ (region.1 + region.2) / 2 ∧ (region.1 + region.2) / 2 ≤ last := by
    intro region hregion
    obtain ⟨a, b, ⟨-, hrun, hlong⟩, rfl⟩ := (hpauses.mem_iff region).mp hregion
    have hfour : minPauseFrames featuresHopSeconds = 4 := by decide +kernel
    have hinside := hrun.inside
    have hframes : a + b ≤ 2 * (rms.length - 1) := by omega
    have hframes' : ((a : ℚ) + b) ≤ 2 * (rms.length - 1 : ℕ) := by exact_mod_cast hframes
    have hscaled := mul_le_mul_of_nonneg_right hframes' hhop.le
    constructor
    · positivity
    · dsimp only
      linarith
  have hfull := roundTenth_hundred
  unfold VocalCoach.breathRun
  dsimp only
  unfold breathScore
  split_ifs with hempty
  · rfl
  · have hcompared : comparedPauses (pauseRegions rms featuresHopSeconds)
        (pauseRegions rms featuresHopSeconds) map =
        (pauseRegions rms featuresHopSeconds).map fun region => (region, true) := by
      unfold comparedPauses
      refine List.map_congr_left fun region hregion => ?_
      obtain ⟨hlow, hhigh⟩ := hcenter region hregion
      rw [Prod.mk.injEq]
      refine ⟨rfl, ?_⟩
      rw [(h _ hlow hhigh).2, List.any_eq_true]
      refine ⟨_, List.mem_map_of_mem hregion, decide_eq_true ?_⟩
      rw [sub_self, abs_zero]
      norm_num [breathPauseMatchToleranceSeconds]
    have hpos : ((pauseRegions rms featuresHopSeconds).length : ℚ) ≠ 0 := by
      exact_mod_cast mt List.length_eq_zero_iff.mp (by simpa using hempty)
    have hcount : ((pauseRegions rms featuresHopSeconds).map fun region =>
        (region, true)).countP Prod.snd = (pauseRegions rms featuresHopSeconds).length := by
      rw [List.countP_map]
      exact List.countP_eq_length.mpr fun _ _ => rfl
    dsimp only
    rw [hcompared, hcount, List.length_map, mul_div_assoc, div_self hpos, mul_one, hfull]

end Identity

/-- The dynamics stage correlates the envelope with itself. -/
theorem IdentityUpTo.dynamicsRun {map : TimeMap} {last : ℚ} (h : IdentityUpTo last map)
    {rms : List ℝ} (hlast : (rms.length - 1 : ℕ) * featuresHopSeconds ≤ last)
    (hvaries : ∃ x ∈ rms, ∃ y ∈ rms, x ≠ y) :
    ∃ data, dynamicsRun Real.sqrt rms rms map = some data ∧ data.score = 100 := by
  have hhop := featuresHopSeconds_pos
  obtain ⟨x, hx, y, hy, hne⟩ := hvaries
  have hlong : 2 ≤ rms.length := by
    by_contra hshort
    obtain ⟨z, hz⟩ := List.length_eq_one_iff.mp
      (show rms.length = 1 by have := List.length_pos_of_mem hx; omega)
    rw [hz, List.mem_singleton] at hx hy
    exact hne (hx.trans hy.symm)
  have henergy : dot (centered rms) (centered rms) ≠ 0 := by
    intro hzero
    have hmean : ∀ z ∈ rms, z = mean rms := fun z hz =>
      sub_eq_zero.mp (eq_zero_of_dot_self hzero _ (List.mem_map_of_mem hz))
    exact hne ((hmean x hx).trans (hmean y hy).symm)
  unfold VocalCoach.dynamicsRun
  rw [h.resample hhop hlast]
  refine ⟨_, rfl, ?_⟩
  dsimp only
  rw [correlation_self isSqrt_sqrt hlong henergy, max_eq_right zero_le_one, mul_one,
    nearestTenth_hundred]

/-- The timbre stage finds every frame in the direction of itself. -/
theorem IdentityUpTo.timbreRun {map : TimeMap} {last : ℚ} (h : IdentityUpTo last map)
    {mfcc : List (List ℝ)} (hlast : (mfcc.length - 1 : ℕ) * featuresHopSeconds ≤ last)
    (hne : mfcc ≠ []) (hframes : ∀ v ∈ mfcc, ∃ x ∈ v, x ≠ 0) :
    ∃ data, timbreRun Real.sqrt mfcc mfcc map = some data ∧ data.score = 100 := by
  have hhop := featuresHopSeconds_pos
  have hcosines : List.zipWith (cosine Real.sqrt) mfcc mfcc = mfcc.map fun _ => 1 := by
    rw [List.zipWith_self]
    refine List.map_congr_left fun v hv => cosine_self isSqrt_sqrt fun hzero => ?_
    obtain ⟨x, hx, hx0⟩ := hframes v hv
    exact hx0 (eq_zero_of_dot_self hzero x hx)
  have hempty : ¬ (mfcc.map fun _ => (1 : ℝ)).isEmpty = true := by simpa using hne
  have hlength : (mfcc.length : ℝ) ≠ 0 := by
    exact_mod_cast mt List.length_eq_zero_iff.mp hne
  unfold VocalCoach.timbreRun
  rw [h.resample hhop hlast]
  refine ⟨_, rfl, ?_⟩
  dsimp only
  rw [hcosines, if_neg hempty, List.length_map, List.map_const', List.sum_replicate, nsmul_eq_mul,
    mul_one, div_self hlength, max_eq_right zero_le_one, mul_one, nearestTenth_hundred]

/-! ## The overall score -/

/-- Accepted weights that are numbers sum to one, up to the tolerance. -/
theorem accepted_sum {float : List Char → Option Floating} {raw : String} {mode : Mode}
    {weights : List (String × Floating)} (h : parseWeights .exact float raw mode = .ok weights)
    {weight : String → ℚ}
    (hfinite : ∀ aspect ∈ modeAspects mode, weights.lookup aspect = some (.finite (weight aspect))) :
    |((modeAspects mode).map weight).sum - 1| ≤ weightsSumTolerance := by
  obtain ⟨-, hkeys, hsum⟩ := parseWeights_ok h
  rw [values_of_lookup hkeys (nodup_modeAspects mode) hfinite] at hsum
  -- without rounding the sum is the sum
  have hexact : FloatArithmetic.exact.sum (((weights.map Prod.fst).map weight).map Floating.finite) =
      .finite ((modeAspects mode).map weight).sum := by
    rw [← (hkeys.map weight).sum_eq]
    exact (Floating.sum_map_finite _ id).trans (by rw [List.map_id])
  rw [hexact] at hsum
  rw [sub_eq_add_neg]
  exact not_lt.mp (of_decide_eq_false hsum)

/-- Full marks everywhere make a full overall score: the tolerance is rounded away. -/
theorem weightedOverall_full {float : List Char → Option Floating} {raw : String} {mode : Mode}
    {weights : List (String × Floating)} (h : parseWeights .exact float raw mode = .ok weights)
    {weight : String → ℚ}
    (hfinite : ∀ aspect ∈ modeAspects mode, weights.lookup aspect = some (.finite (weight aspect))) :
    weightedOverallFloat .exact (scoreTable mode fun _ => 100) weights mode = some (.finite 100) := by
  obtain ⟨hlow, hhigh⟩ := abs_le.mp (accepted_sum h hfinite)
  have htolerance : weightsSumTolerance ≤ 1 / 10 ^ 5 := by norm_num [weightsSumTolerance]
  rw [weightedOverallFloat_eq _ hfinite]
  show some (roundTenthFloat (Floating.sum ((modeAspects mode).map fun aspect =>
    Floating.finite (100 * weight aspect)))) = _
  rw [Floating.sum_map_finite, List.sum_map_mul_left]
  show some (Floating.finite (roundTenth (100 * ((modeAspects mode).map weight).sum))) = _
  generalize ((modeAspects mode).map weight).sum = total at hlow hhigh
  -- a thousandth off a thousand
  have hround : roundHalfEven (100 * total * 10) = 1000 := by
    obtain ⟨hfrom, hto⟩ := abs_le.mp (abs_roundHalfEven_sub_le (100 * total * 10))
    have habove : ((999 : ℤ) : ℚ) < roundHalfEven (100 * total * 10) := by
      push_cast
      linarith
    have hbelow : (roundHalfEven (100 * total * 10) : ℚ) < (1001 : ℤ) := by
      push_cast
      linarith
    have habove' := Int.cast_lt.mp habove
    have hbelow' := Int.cast_lt.mp hbelow
    omega
  rw [roundTenth, hround]
  norm_num

/-! ## The whole scoring -/

/-- What the reference has to hold for there to be something to score: enough voiced frames,
an onset, an envelope that is not flat, timbre frames that are not silent, and feature frames
that end with the pitch curve. -/
structure Scorable (hz : List (Option ℝ)) (onsets rms : List ℚ) (mfcc : List (List ℝ)) : Prop where
  voiced : minVoicedFraction ≤ voicedFraction hz
  fits : FitsTables hz.length
  onset : onsets ≠ []
  onsets : ∀ t ∈ onsets, 0 ≤ t ∧ t ≤ (hz.length - 1 : ℕ) * pitchHopSeconds
  levels : ∀ level ∈ rms, 0 ≤ level
  varies : ∃ x ∈ rms, ∃ y ∈ rms, x ≠ y
  rmsFrames : 5 * (rms.length - 1) ≤ hz.length - 1
  timbre : mfcc ≠ []
  frames : ∀ v ∈ mfcc, ∃ x ∈ v, x ≠ 0
  mfccFrames : 5 * (mfcc.length - 1) ≤ hz.length - 1

theorem exists_voiced {hz : List (Option ℝ)} (h : minVoicedFraction ≤ voicedFraction hz) :
    ∃ x, some x ∈ hz := by
  by_contra hnone
  have hzero : hz.countP Option.isSome = 0 := by
    rw [List.countP_eq_zero]
    intro x hx
    cases x with
    | none => simp
    | some x => exact absurd ⟨x, hx⟩ hnone
  have hpos : (0 : ℚ) < minVoicedFraction := by norm_num [minVoicedFraction]
  unfold voicedFraction at h
  rw [hzero, Nat.cast_zero, zero_div] at h
  split_ifs at h
  · linarith
  · linarith

/-- **A perfect take scores full marks.**  The reference handed in as the recording is aligned
with itself without a start offset, every aspect scores a hundred, and so does the whole, with
any accepted weights that are numbers. -/
theorem perfectTake_scores (argsort : List (WithTop ℝ) → List ℕ) (centsDeviation : ℝ → ℝ → ℚ)
    (log2 : ℝ → ℝ) (hz : List (Option ℝ)) (onsets rms : List ℚ) (mfcc : List (List ℝ))
    (hcents : ∀ x, centsDeviation x x = 0) (hscorable : Scorable hz onsets rms mfcc) :
    ∃ data, alignStageRun embeddingDistance argsort hz hz = .ok data ∧
      data.referenceStartOffsetSeconds = 0 ∧
      (pitchStage centsDeviation data.userPitchCurve hz data.timeMap).score = 100 ∧
      (rhythmRun onsets onsets data.timeMap).score = 100 ∧
      (breathRun rms rms data.timeMap).score = 100 ∧
      (∃ dynamics, dynamicsRun Real.sqrt (rms.map fun x : ℚ => (x : ℝ)) (rms.map fun x : ℚ => (x : ℝ))
        data.timeMap = some dynamics ∧ dynamics.score = 100) ∧
      (∃ timbre, timbreRun Real.sqrt mfcc mfcc data.timeMap = some timbre ∧ timbre.score = 100) ∧
      (Vibrato.vibratoRun log2 ⟨pitchHopSeconds, data.userPitchCurve⟩ ⟨pitchHopSeconds, hz⟩).score
        = 100 ∧
      ∀ float raw mode weights, parseWeights .exact float raw mode = .ok weights →
        ∀ weight : String → ℚ, (∀ aspect ∈ modeAspects mode,
          weights.lookup aspect = some (.finite (weight aspect))) →
        weightedOverallFloat .exact (scoreTable mode fun _ => 100) weights mode = some (.finite 100) := by
  have hfollow : Follow embeddingDistance hz hz :=
    List.forall₂_same.mpr fun x _ => embeddingDistance_self x
  have hidentity : IdentityUpTo ((hz.length - 1 : ℕ) * pitchHopSeconds)
      (AlignData.diagonal hz 0 : AlignData ℝ ℝ).timeMap := fun t hlow hhigh =>
    timeMap_diagonal hlow hhigh (ne_nil_of_voiced hscorable.voiced)
  -- five pitch frames to a feature frame
  have hfeatures : ∀ n : ℕ, 5 * (n - 1) ≤ hz.length - 1 →
      ((n - 1 : ℕ) : ℚ) * featuresHopSeconds ≤ (hz.length - 1 : ℕ) * pitchHopSeconds := by
    intro n hn
    have hn' : 5 * ((n - 1 : ℕ) : ℚ) ≤ (hz.length - 1 : ℕ) := by exact_mod_cast hn
    rw [featuresHopSeconds, pitchHopSeconds]
    linarith
  refine ⟨.diagonal hz 0, alignStageRun_follow argsort (fun _ _ => Real.sqrt_nonneg _) hfollow
    hscorable.voiced hscorable.fits, ?_, hidentity.pitchStage hcents le_rfl
    (exists_voiced hscorable.voiced), hidentity.rhythmRun hscorable.onset hscorable.onsets,
    hidentity.breathRun hscorable.levels (hfeatures _ hscorable.rmsFrames),
    hidentity.dynamicsRun ?_ ?_,
    hidentity.timbreRun (hfeatures _ hscorable.mfccFrames) hscorable.timbre hscorable.frames,
    Vibrato.score_self _ _, fun _ _ _ _ hparse _ hfinite => weightedOverall_full hparse hfinite⟩
  · show ((0 : ℕ) : ℚ) * pitchHopSeconds = 0
    simp
  · rw [List.length_map]
    exact hfeatures _ hscorable.rmsFrames
  · obtain ⟨x, hx, y, hy, hne⟩ := hscorable.varies
    exact ⟨x, List.mem_map_of_mem hx, y, List.mem_map_of_mem hy, by exact_mod_cast hne⟩

/-- Six frames, a rest among them. -/
theorem perfectTake_scores_sixFrames :
    ∃ data, alignStageRun embeddingDistance (fun _ => [])
        [some 220, some 220, none, some 247, some 247, some 262]
        [some 220, some 220, none, some 247, some 247, some 262] = .ok data ∧
      (rhythmRun [1 / 100] [1 / 100] data.timeMap).score = 100 ∧
      (breathRun [1, 1 / 2] [1, 1 / 2] data.timeMap).score = 100 := by
  obtain ⟨data, hrun, -, -, hrhythm, hbreath, -⟩ := perfectTake_scores (fun _ => []) (fun _ _ => 0)
    id [some 220, some 220, none, some 247, some 247, some 262] [1 / 100] [1, 1 / 2] [[1], [2]]
    (fun _ => rfl)
    { voiced := by norm_num [minVoicedFraction, voicedFraction]
      fits := by rw [fitsTables_iff]; decide
      onset := by simp
      onsets := by norm_num [pitchHopSeconds]
      levels := by norm_num
      varies := ⟨1, by simp, 1 / 2, by simp, by norm_num⟩
      rmsFrames := by decide
      timbre := by simp
      frames := by norm_num
      mfccFrames := by decide }
  exact ⟨data, hrun, hrhythm, hbreath⟩

end VocalCoach
