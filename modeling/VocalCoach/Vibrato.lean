/-
# The vibrato stage

Models `pipeline/stages/vibrato.py`: the sustained notes of a pitch curve, the oscillation an
autocorrelation finds in each of them, the weighted profile of a curve, and the score of two
profiles.  Numbers are those of any ordered field with a floor, the logarithm is a parameter.

* The notes are the maximal voiced runs that are long enough (`sustainedRuns_eq`).
* A detected rate lies in the band of lags that is searched, a detected depth is not below the
  threshold, and both survive the weighting (`profileOf_detected`).
* A note is measured against its own median, so a profile does not see the key
  (`profileOf_transposed`).
-/
import VocalCoach.AspectStages
import VocalCoach.Medians
import VocalCoach.Runs

namespace VocalCoach.Vibrato

open Interpolation Medians Similarity

/-! ## Constants -/

def vibratoMinRateHz : ℚ := 7 / 2

def vibratoMaxRateHz : ℚ := 9

def vibratoMinDepthCents : ℚ := 20

/-- The shortest note that is looked at. -/
def vibratoMinSegmentSeconds : ℚ := 3 / 10

def vibratoAutocorrPeakThreshold : ℚ := 3 / 10

/-- One side has vibrato and the other one does not. -/
def vibratoPresenceMismatchScore : ℚ := 40

/-! ## The notes -/

section Notes

variable {α : Type*}

/-- The loop of `_sustained_runs`, with the run it is in. -/
def sustainedLoop (minFrames : ℕ) (current : List α) : List (Option α) → List (List α)
  | [] => if minFrames ≤ current.length then [current] else []
  | some value :: rest => sustainedLoop minFrames (current ++ [value]) rest
  | none :: rest =>
      (if minFrames ≤ current.length then [current] else []) ++ sustainedLoop minFrames [] rest

/-- `max(1, round(min_seconds / curve.hop_seconds))`. -/
def minFrames (hopSeconds minSeconds : ℚ) : ℕ := (max 1 (roundHalfEven (minSeconds / hopSeconds))).toNat

/-- `PitchCurve`. -/
structure PitchCurve (α : Type*) where
  hopSeconds : ℚ
  hz : List (Option α)

/-- `_sustained_runs`. -/
def sustainedRuns (curve : PitchCurve α) (minSeconds : ℚ) : List (List α) :=
  sustainedLoop (minFrames curve.hopSeconds minSeconds) [] curve.hz

end Notes

/-! ## The oscillation of a note -/

section Oscillation

variable {K : Type*} [Field K] [LinearOrder K]

/-- `np.argmax`: the first of the greatest. -/
def argmax (xs : List K) : ℕ := xs.findIdx fun x => xs.all fun y => y ≤ x

/-- `np.percentile`, interpolating between the two neighbours. -/
def percentile (xs : List K) (q : ℚ) : K :=
  let position : ℚ := q / 100 * (xs.length - 1 : ℕ)
  let below := ⌊position⌋.toNat
  let above := min (below + 1) (xs.length - 1)
  let low := (sorted xs).getD below 0
  low + ((position - below : ℚ) : K) * ((sorted xs).getD above 0 - low)

/-- The second half of `np.correlate(detrended, detrended, mode="full")`. -/
def autocorrelation (detrended : List K) : List K :=
  (List.range detrended.length).map fun lag => dot detrended (detrended.drop lag)

/-- `min_lag`. -/
def minLag (hopSeconds : ℚ) : ℤ := max 1 (roundHalfEven (1 / vibratoMaxRateHz / hopSeconds))

/-- `max_lag`, for `n` lags. -/
def maxLag (hopSeconds : ℚ) (n : ℕ) : ℤ :=
  min (n - 1) (roundHalfEven (1 / vibratoMinRateHz / hopSeconds))

/-- `_dominant_oscillation`: the rate and the depth. -/
def dominantOscillation (cents : List K) (hopSeconds : ℚ) : Option (K × K) :=
  let detrended := centered cents
  if detrended.length < 4 then none
  else
    let autocorr := autocorrelation detrended
    let energy := autocorr.headD 0
    if energy ≤ 0 then none
    else
      let autocorr := autocorr.map fun x => x / energy
      let minLag := minLag hopSeconds
      let maxLag := maxLag hopSeconds autocorr.length
      if maxLag ≤ minLag then none
      else
        let window := (autocorr.drop minLag.toNat).take (maxLag + 1 - minLag).toNat
        let peakOffset := argmax window
        let peakLag := minLag + peakOffset
        if window.getD peakOffset 0 < (vibratoAutocorrPeakThreshold : ℚ) then none
        else
          let rateHz : ℚ := 1 / (peakLag * hopSeconds)
          let depthCents := percentile detrended 95 - percentile detrended 5
          if depthCents < (vibratoMinDepthCents : ℚ) then none
          else some (rateHz, depthCents)

/-! ## Profiles -/

/-- `VibratoProfile`. -/
structure VibratoProfile (K : Type*) where
  detected : Bool
  rateHz : Option K
  depthCents : Option K
  deriving DecidableEq, Repr

/-- The mean of the values, each with its weight. -/
def weightedMean (detections : List (K × ℕ)) : K :=
  (detections.map fun d => d.1 * (d.2 : K)).sum / ((detections.map Prod.snd).sum : ℕ)

/-- The detections `_profile` collects, with the length of the note. -/
def detections (log2 : K → K) (curve : PitchCurve K) : List ((K × K) × ℕ) :=
  (sustainedRuns curve vibratoMinSegmentSeconds).filterMap fun run =>
    let cents := run.map fun value => (1200 : ℕ) * log2 (value / median run)
    (dominantOscillation cents curve.hopSeconds).map fun found => (found, run.length)

/-- `_profile`. -/
def profileOf (log2 : K → K) (curve : PitchCurve K) : VibratoProfile K :=
  let detections := detections log2 curve
  if detections.isEmpty then { detected := false, rateHz := none, depthCents := none }
  else
    { detected := true
      rateHz := some (weightedMean (detections.map fun d => (d.1.1, d.2)))
      depthCents := some (weightedMean (detections.map fun d => (d.1.2, d.2))) }

variable [FloorRing K]

/-- `_score`. -/
def score (user reference : VibratoProfile K) : K :=
  if !reference.detected && !user.detected then (100 : ℕ)
  else if reference.detected ≠ user.detected then (vibratoPresenceMismatchScore : ℚ)
  else match user.rateHz, reference.rateHz, user.depthCents, reference.depthCents with
    | some userRate, some referenceRate, some userDepth, some referenceDepth =>
        let rateError := |userRate - referenceRate| / (vibratoRateToleranceHz : ℚ)
        let depthError := |userDepth - referenceDepth| / (vibratoDepthToleranceCents : ℚ)
        let penalty := min 1 (1 / (2 : ℕ) * rateError + 1 / (2 : ℕ) * depthError)
        nearestTenth ((100 : ℕ) * (1 - penalty))
    | _, _, _, _ => 0

/-- `StageResult.data` of `VibratoStage`. -/
structure VibratoData (K : Type*) where
  score : K
  user : VibratoProfile K
  reference : VibratoProfile K

/-- `VibratoStage.run`, on the pitch curves of the two sides. -/
def vibratoRun (log2 : K → K) (userCurve referenceCurve : PitchCurve K) : VibratoData K :=
  let user := profileOf log2 userCurve
  let reference := profileOf log2 referenceCurve
  { score := score user reference, user, reference }

end Oscillation

/-! ## Which notes are looked at -/

section Notes

variable {α : Type*}

/-- The voiced values of the frames from `a` to `b`. -/
def valuesOf (hz : List (Option α)) (run : ℕ × ℕ) : List α :=
  ((hz.drop run.1).take (run.2 - run.1)).filterMap id

/-- A run of `n` frames. -/
def isSustained (n : ℕ) (run : ℕ × ℕ) : Bool := n ≤ run.2 - run.1

theorem valuesOf_middle (before : List (Option α)) (current : List α) (rest : List (Option α)) :
    valuesOf (before ++ current.map some ++ rest) (before.length, before.length + current.length) =
      current := by
  simp [valuesOf, List.filterMap_map]

/-- What is left of a run that ends. -/
theorem closed_eq (n : ℕ) (hn : 0 < n) (before : List (Option α)) (current : List α)
    (rest : List (Option α)) :
    (if n ≤ current.length then [current] else []) =
      ((((if current = [] then none else some before.length).toList.map fun s =>
        (s, before.length + current.length)).filter (isSustained n)).map
        (valuesOf (before ++ current.map some ++ rest))) := by
  by_cases hnil : current = []
  · subst hnil
    rw [List.length_nil, if_neg (by omega), if_pos rfl]
    rfl
  · rw [if_neg hnil, Option.toList_some, List.map_singleton, List.filter_singleton, isSustained]
    have hlength : before.length + current.length - before.length = current.length := by omega
    dsimp only
    rw [hlength]
    by_cases hlong : n ≤ current.length
    · rw [if_pos hlong, decide_eq_true hlong]
      show [current] = [valuesOf (before ++ current.map some ++ rest)
        (before.length, before.length + current.length)]
      rw [valuesOf_middle]
    · rw [if_neg hlong, decide_eq_false hlong]
      rfl

/-- The loop keeps the values of the open run, those of the frames after `before`. -/
theorem sustainedLoop_scan (n : ℕ) (hn : 0 < n) (before : List (Option α)) (current : List α)
    (rest : List (Option α)) :
    sustainedLoop n current rest =
      ((Runs.scan (before.length + current.length)
          (if current = [] then none else some before.length) (rest.map Option.isSome)).filter
        (isSustained n)).map (valuesOf (before ++ current.map some ++ rest)) := by
  induction rest generalizing before current with
  | nil => exact closed_eq n hn before current []
  | cons frame rest ih =>
    cases frame with
    | some value =>
      have hstart : (if current = [] then none else some before.length).getD
          (before.length + current.length) = before.length := by
        by_cases hnil : current = []
        · subst hnil
          rfl
        · rw [if_neg hnil]
          rfl
      have hnext := ih before (current ++ [value])
      rw [if_neg (List.append_ne_nil_of_right_ne_nil _ (List.cons_ne_nil _ _))] at hnext
      rw [List.map_cons, Option.isSome_some, Runs.scan, hstart]
      simpa [sustainedLoop, Nat.add_assoc] using hnext
    | none =>
      have hnext := ih (before ++ current.map some ++ [none]) []
      rw [if_pos rfl] at hnext
      rw [List.map_cons, Option.isSome_none, Runs.scan, List.filter_append, List.map_append,
        ← closed_eq n hn, sustainedLoop]
      simpa [Nat.add_assoc] using hnext

theorem minFrames_pos (hopSeconds minSeconds : ℚ) : 0 < minFrames hopSeconds minSeconds := by
  have hone : (1 : ℤ) ≤ max 1 (roundHalfEven (minSeconds / hopSeconds)) := le_max_left _ _
  unfold minFrames
  omega

/-- **The notes are the maximal voiced runs that are long enough**, in order. -/
theorem sustainedRuns_eq (curve : PitchCurve α) (minSeconds : ℚ) :
    sustainedRuns curve minSeconds =
      ((Runs.runs (curve.hz.map Option.isSome)).filter
        (isSustained (minFrames curve.hopSeconds minSeconds))).map (valuesOf curve.hz) := by
  have hscan := sustainedLoop_scan _ (minFrames_pos curve.hopSeconds minSeconds) [] [] curve.hz
  rw [if_pos rfl] at hscan
  exact hscan

end Notes

/-! ## Another key -/

section Key

variable {K : Type*} [Field K] [LinearOrder K] [IsStrictOrderedRing K] [FloorRing K]

/-- The curve with every pitch multiplied by `c`: moved by a constant interval. -/
def PitchCurve.transposed (c : K) (curve : PitchCurve K) : PitchCurve K where
  hopSeconds := curve.hopSeconds
  hz := curve.hz.map (Option.map (c * ·))

theorem sustainedLoop_map {α β : Type*} (f : α → β) (n : ℕ) (current : List α)
    (rest : List (Option α)) :
    sustainedLoop n (current.map f) (rest.map (Option.map f)) =
      (sustainedLoop n current rest).map (List.map f) := by
  induction rest generalizing current with
  | nil =>
    show (if n ≤ (current.map f).length then [current.map f] else []) =
      (if n ≤ current.length then [current] else []).map (List.map f)
    rw [List.length_map]
    split_ifs <;> rfl
  | cons frame rest ih =>
    cases frame with
    | some value =>
      have hnext := ih (current ++ [value])
      rw [List.map_append] at hnext
      exact hnext
    | none =>
      show (if n ≤ (current.map f).length then [current.map f] else []) ++
        sustainedLoop n ([].map f) (rest.map (Option.map f)) =
        ((if n ≤ current.length then [current] else []) ++ sustainedLoop n [] rest).map (List.map f)
      rw [ih, List.length_map, List.map_append]
      split_ifs <;> rfl

omit [FloorRing K] in
/-- **A profile does not see the key**: each note is measured against its own median. -/
theorem profileOf_transposed (log2 : K → K) {c : K} (hc : 0 < c) (curve : PitchCurve K) :
    profileOf log2 (curve.transposed c) = profileOf log2 curve := by
  have hdetections : detections log2 (curve.transposed c) = detections log2 curve := by
    unfold detections sustainedRuns
    show ((sustainedLoop _ ([].map (c * ·)) (curve.hz.map (Option.map (c * ·)))).filterMap _) = _
    rw [sustainedLoop_map, List.filterMap_map]
    refine List.filterMap_congr fun run _ => ?_
    have hcents : (run.map (c * ·)).map
          (fun value => (1200 : ℕ) * log2 (value / median (run.map (c * ·)))) =
        run.map fun value => (1200 : ℕ) * log2 (value / median run) := by
      rw [List.map_map, median_map_mul hc]
      refine List.map_congr_left fun value _ => ?_
      rw [Function.comp_apply, mul_div_mul_left _ _ hc.ne']
    simp only [Function.comp_apply, hcents, List.length_map]
    rfl
  unfold profileOf
  rw [hdetections]

end Key

/-! ## What a detection says -/

section Detected

variable {K : Type*} [Field K] [LinearOrder K] [IsStrictOrderedRing K]

omit [Field K] [IsStrictOrderedRing K] in
theorem exists_greatest {xs : List K} (hxs : xs ≠ []) : ∃ x ∈ xs, ∀ y ∈ xs, y ≤ x := by
  induction xs with
  | nil => exact absurd rfl hxs
  | cons x xs ih =>
    by_cases hnil : xs = []
    · subst hnil
      exact ⟨x, List.mem_cons_self, by simp⟩
    · obtain ⟨y, hy, hgreatest⟩ := ih hnil
      rcases le_total x y with hle | hle
      · exact ⟨y, List.mem_cons_of_mem _ hy, List.forall_mem_cons.mpr ⟨hle, hgreatest⟩⟩
      · exact ⟨x, List.mem_cons_self,
          List.forall_mem_cons.mpr ⟨le_rfl, fun z hz => (hgreatest z hz).trans hle⟩⟩

omit [Field K] [IsStrictOrderedRing K] in
theorem argmax_lt {xs : List K} (hxs : xs ≠ []) : argmax xs < xs.length := by
  obtain ⟨x, hx, hgreatest⟩ := exists_greatest hxs
  exact List.findIdx_lt_length_of_exists ⟨x, hx, by simpa using hgreatest⟩

omit [IsStrictOrderedRing K] in
/-- **What an oscillation is**: the lag of its rate is one of the band that is searched, and its
depth is not below the threshold. -/
theorem dominantOscillation_eq {cents : List K} {hop : ℚ} {rate depth : K}
    (h : dominantOscillation cents hop = some (rate, depth)) :
    (∃ lag : ℤ, minLag hop ≤ lag ∧ lag ≤ maxLag hop cents.length ∧
      rate = ((1 / (lag * hop) : ℚ) : K)) ∧ ((vibratoMinDepthCents : ℚ) : K) ≤ depth := by
  unfold dominantOscillation at h
  dsimp only at h
  split_ifs at h with hshort henergy hband hpeak hdepth
  obtain ⟨rfl, rfl⟩ := Prod.mk.inj (Option.some.inj h)
  refine ⟨⟨_, le_add_of_nonneg_right (Int.natCast_nonneg _), ?_, rfl⟩, not_lt.mp hdepth⟩
  -- the window runs from the least lag to the greatest
  have hlags : ((autocorrelation (centered cents)).map fun x =>
      x / (autocorrelation (centered cents)).headD 0).length = cents.length := by
    simp [autocorrelation]
  rw [hlags] at hband ⊢
  have hmin : 1 ≤ minLag hop := le_max_left _ _
  have hmax : maxLag hop cents.length ≤ cents.length - 1 := min_le_left _ _
  have hwindow : ((((autocorrelation (centered cents)).map fun x =>
      x / (autocorrelation (centered cents)).headD 0).drop (minLag hop).toNat).take
        (maxLag hop cents.length + 1 - minLag hop).toNat).length =
      (maxLag hop cents.length + 1 - minLag hop).toNat := by
    rw [List.length_take, List.length_drop, hlags]
    omega
  have hlt := argmax_lt (List.length_pos_iff.mp (by rw [hwindow]; omega))
  rw [hwindow] at hlt
  omega

/-- A weighted mean is not below a bound of the values. -/
theorem le_weightedMean {l : List (K × ℕ)} {low : K} (hpos : 0 < (l.map Prod.snd).sum)
    (h : ∀ d ∈ l, low ≤ d.1) : low ≤ weightedMean l := by
  have hsum : low * ((l.map Prod.snd).sum : ℕ) ≤ (l.map fun d => d.1 * (d.2 : K)).sum := by
    clear hpos
    induction l with
    | nil => simp
    | cons d l ih =>
      have hrest := ih fun e he => h e (List.mem_cons_of_mem _ he)
      have hfirst := mul_le_mul_of_nonneg_right (h d List.mem_cons_self)
        (Nat.cast_nonneg (α := K) d.2)
      rw [List.map_cons, List.map_cons, List.sum_cons, List.sum_cons, Nat.cast_add, mul_add]
      exact add_le_add hfirst hrest
  unfold weightedMean
  rwa [le_div_iff₀ (by exact_mod_cast hpos)]

/-- Nor is it above one. -/
theorem weightedMean_le {l : List (K × ℕ)} {high : K} (hpos : 0 < (l.map Prod.snd).sum)
    (h : ∀ d ∈ l, d.1 ≤ high) : weightedMean l ≤ high := by
  have hsum : (l.map fun d => d.1 * (d.2 : K)).sum ≤ high * ((l.map Prod.snd).sum : ℕ) := by
    clear hpos
    induction l with
    | nil => simp
    | cons d l ih =>
      have hrest := ih fun e he => h e (List.mem_cons_of_mem _ he)
      have hfirst := mul_le_mul_of_nonneg_right (h d List.mem_cons_self)
        (Nat.cast_nonneg (α := K) d.2)
      rw [List.map_cons, List.map_cons, List.sum_cons, List.sum_cons, Nat.cast_add, mul_add]
      exact add_le_add hfirst hrest
  unfold weightedMean
  rwa [div_le_iff₀ (by exact_mod_cast hpos)]

/-- The note is found to oscillate, against its own median. -/
def Oscillates (log2 : K → K) (hopSeconds : ℚ) (run : List K) : Prop :=
  (dominantOscillation (run.map fun value => (1200 : ℕ) * log2 (value / median run)) hopSeconds).isSome

variable {log2 : K → K} {curve : PitchCurve K}

omit [IsStrictOrderedRing K] in
/-- Where a detection comes from. -/
theorem mem_detections {d : (K × K) × ℕ} : d ∈ detections log2 curve ↔
    ∃ run ∈ sustainedRuns curve vibratoMinSegmentSeconds,
      dominantOscillation (run.map fun value => (1200 : ℕ) * log2 (value / median run))
        curve.hopSeconds = some d.1 ∧ d.2 = run.length := by
  unfold detections
  rw [List.mem_filterMap]
  refine exists_congr fun run => and_congr_right fun _ => ?_
  rw [Option.map_eq_some_iff]
  constructor
  · rintro ⟨found, hfound, rfl⟩
    exact ⟨hfound, rfl⟩
  · rintro ⟨hfound, hlength⟩
    exact ⟨d.1, hfound, Prod.ext rfl hlength.symm⟩

omit [IsStrictOrderedRing K] in
theorem detected_iff : (profileOf log2 curve).detected = true ↔ detections log2 curve ≠ [] := by
  unfold profileOf
  dsimp only
  split_ifs with hempty
  · simpa using hempty
  · simpa using hempty

omit [IsStrictOrderedRing K] in
/-- A detection weighs something. -/
theorem weight_pos {d : (K × K) × ℕ} (h : d ∈ detections log2 curve) : 0 < d.2 := by
  obtain ⟨run, -, hfound, hlength⟩ := mem_detections.mp h
  by_contra hzero
  have hnil : run = [] := List.length_eq_zero_iff.mp (by omega)
  subst hnil
  cases hfound

omit [IsStrictOrderedRing K] [Field K] [LinearOrder K] in
/-- On the pitch grid the notes are the maximal voiced runs of at least thirty frames. -/
theorem mem_sustainedRuns {hz : List (Option K)} {run : List K} :
    run ∈ sustainedRuns ⟨pitchHopSeconds, hz⟩ vibratoMinSegmentSeconds ↔
      ∃ a b, Runs.IsRun (hz.map Option.isSome) a b ∧ 30 ≤ b - a ∧ run = valuesOf hz (a, b) := by
  have hframes : minFrames pitchHopSeconds vibratoMinSegmentSeconds = 30 := by decide +kernel
  have hspans := Runs.spans_runs (hz.map Option.isSome)
  rw [sustainedRuns_eq, hframes]
  constructor
  · intro hrun
    obtain ⟨⟨a, b⟩, hab, rfl⟩ := List.mem_map.mp hrun
    obtain ⟨hmem, hlong⟩ := List.mem_filter.mp hab
    exact ⟨a, b, hspans.mem_iff.mp hmem, of_decide_eq_true hlong, rfl⟩
  · rintro ⟨a, b, hrun, hlong, rfl⟩
    exact List.mem_map_of_mem
      (List.mem_filter.mpr ⟨hspans.mem_iff.mpr hrun, decide_eq_true hlong⟩)

/-- On the pitch grid the lags that are searched are those from `11` to `29`. -/
theorem detection_bounds {hz : List (Option K)} {d : (K × K) × ℕ}
    (hd : d ∈ detections log2 ⟨pitchHopSeconds, hz⟩) :
    (100 / 29 ≤ d.1.1 ∧ d.1.1 ≤ 100 / 11) ∧ 20 ≤ d.1.2 := by
  have hleast : minLag pitchHopSeconds = 11 := by decide +kernel
  have hgreatest : roundHalfEven (1 / vibratoMinRateHz / pitchHopSeconds) = 29 := by decide +kernel
  have hhop : (pitchHopSeconds : ℚ) = 1 / 100 := rfl
  obtain ⟨run, -, hfound, -⟩ := mem_detections.mp hd
  obtain ⟨⟨lag, hlow, hhigh, hrate⟩, hdepth⟩ := dominantOscillation_eq hfound
  have hlow' : 11 ≤ lag := hleast ▸ hlow
  have hhigh' : lag ≤ 29 := hhigh.trans ((min_le_right _ _).trans_eq hgreatest)
  have hlow'' : (11 : K) ≤ lag := by exact_mod_cast hlow'
  have hhigh'' : (lag : K) ≤ 29 := by exact_mod_cast hhigh'
  have hpos : (0 : K) < lag := by linarith
  have hvalue : d.1.1 = 100 / (lag : K) := by
    rw [hrate, hhop]
    push_cast
    field_simp
  have htwenty : ((vibratoMinDepthCents : ℚ) : K) = 20 := by
    rw [vibratoMinDepthCents]
    push_cast
    rfl
  rw [hvalue]
  refine ⟨⟨?_, ?_⟩, htwenty ▸ hdepth⟩
  · exact div_le_div_of_nonneg_left (by norm_num) hpos hhigh''
  · exact div_le_div_of_nonneg_left (by norm_num) (by norm_num) hlow''

/-- **What a profile says.**  On the pitch grid, vibrato is detected exactly when some maximal
voiced run of at least thirty frames oscillates, and then the rate is between `100 / 29` and
`100 / 11` Hertz and the depth not below the threshold. -/
theorem profileOf_detected (log2 : K → K) (hz : List (Option K)) :
    ((profileOf log2 ⟨pitchHopSeconds, hz⟩).detected = true ↔
      ∃ a b, Runs.IsRun (hz.map Option.isSome) a b ∧ 30 ≤ b - a ∧
        Oscillates log2 pitchHopSeconds (valuesOf hz (a, b))) ∧
    ((profileOf log2 ⟨pitchHopSeconds, hz⟩).detected = true →
      ∃ rate depth, (profileOf log2 ⟨pitchHopSeconds, hz⟩).rateHz = some rate ∧
        (profileOf log2 ⟨pitchHopSeconds, hz⟩).depthCents = some depth ∧
        100 / 29 ≤ rate ∧ rate ≤ 100 / 11 ∧ 20 ≤ depth) := by
  rw [detected_iff]
  constructor
  · constructor
    · intro hne
      obtain ⟨d, hd⟩ := List.exists_mem_of_ne_nil _ hne
      obtain ⟨run, hrun, hfound, -⟩ := mem_detections.mp hd
      obtain ⟨a, b, hab, hlong, rfl⟩ := mem_sustainedRuns.mp hrun
      refine ⟨a, b, hab, hlong, ?_⟩
      rw [Oscillates, hfound]
      rfl
    · rintro ⟨a, b, hrun, hlong, hoscillates⟩
      obtain ⟨found, hfound⟩ := Option.isSome_iff_exists.mp hoscillates
      exact List.ne_nil_of_mem (a := (found, (valuesOf hz (a, b)).length))
        (mem_detections.mpr ⟨_, mem_sustainedRuns.mpr ⟨a, b, hrun, hlong, rfl⟩, hfound, rfl⟩)
  · intro hne
    have hprofile : profileOf log2 ⟨pitchHopSeconds, hz⟩ =
        { detected := true
          rateHz := some (weightedMean ((detections log2 ⟨pitchHopSeconds, hz⟩).map
            fun d => (d.1.1, d.2)))
          depthCents := some (weightedMean ((detections log2 ⟨pitchHopSeconds, hz⟩).map
            fun d => (d.1.2, d.2))) } :=
      if_neg (by simpa using hne)
    have hweights : 0 < ((detections log2 ⟨pitchHopSeconds, hz⟩).map Prod.snd).sum := by
      obtain ⟨d, hd⟩ := List.exists_mem_of_ne_nil _ hne
      exact (weight_pos hd).trans_le
        (List.single_le_sum (fun _ _ => Nat.zero_le _) _ (List.mem_map_of_mem hd))
    rw [hprofile]
    refine ⟨_, _, rfl, rfl, le_weightedMean (by rwa [List.map_map]) fun e he => ?_,
      weightedMean_le (by rwa [List.map_map]) fun e he => ?_,
      le_weightedMean (by rwa [List.map_map]) fun e he => ?_⟩
    all_goals obtain ⟨d, hd, rfl⟩ := List.mem_map.mp he
    · exact (detection_bounds hd).1.1
    · exact (detection_bounds hd).1.2
    · exact (detection_bounds hd).2

/-- A held note that wavers sixteen frames to and fro. -/
def waveringCurve : PitchCurve ℚ where
  hopSeconds := pitchHopSeconds
  hz := none :: (List.range 40).map fun i => some (if i % 16 < 8 then 220 else 225)

theorem profileOf_detected_wavering : ∃ rate depth,
    (profileOf (fun x : ℚ => x - 1) waveringCurve).rateHz = some rate ∧
      (profileOf (fun x : ℚ => x - 1) waveringCurve).depthCents = some depth ∧
      100 / 29 ≤ rate ∧ rate ≤ 100 / 11 ∧ 20 ≤ depth :=
  (profileOf_detected (fun x : ℚ => x - 1) waveringCurve.hz).2 (by decide +kernel)

end Detected

/-! ## The score -/

section Score

variable {K : Type*} [Field K] [LinearOrder K] [IsStrictOrderedRing K] [FloorRing K]

theorem score_range (user reference : VibratoProfile K) :
    0 ≤ score user reference ∧ score user reference ≤ 100 := by
  unfold score
  split_ifs
  · norm_num
  · norm_num [vibratoPresenceMismatchScore]
  · split
    next userRate referenceRate userDepth referenceDepth _ _ _ _ =>
      have hrate : (0 : K) < (vibratoRateToleranceHz : ℚ) := by norm_num [vibratoRateToleranceHz]
      have hdepth : (0 : K) < (vibratoDepthToleranceCents : ℚ) := by
        norm_num [vibratoDepthToleranceCents]
      dsimp only
      have hpenalty : 0 ≤ min 1 (1 / 2 * (|userRate - referenceRate| / (vibratoRateToleranceHz : ℚ)) +
          1 / 2 * (|userDepth - referenceDepth| / (vibratoDepthToleranceCents : ℚ))) :=
        le_min zero_le_one (by positivity)
      have hone := min_le_left 1 (1 / 2 * (|userRate - referenceRate| / (vibratoRateToleranceHz : ℚ)) +
          1 / 2 * (|userDepth - referenceDepth| / (vibratoDepthToleranceCents : ℚ)))
      apply nearestTenth_between <;> linarith
    · norm_num

omit [IsStrictOrderedRing K] in
/-- Neither side is the measure of the other. -/
theorem score_comm (user reference : VibratoProfile K) :
    score user reference = score reference user := by
  obtain ⟨detected, rate, depth⟩ := user
  obtain ⟨detected', rate', depth'⟩ := reference
  cases detected <;> cases detected' <;> try rfl
  rcases rate with _ | rate <;> rcases rate' with _ | rate' <;> rcases depth with _ | depth <;>
    rcases depth' with _ | depth' <;> try rfl
  simp only [score, abs_sub_comm rate rate', abs_sub_comm depth depth']

/-- A profile against itself. -/
theorem score_self (log2 : K → K) (curve : PitchCurve K) :
    score (profileOf log2 curve) (profileOf log2 curve) = 100 := by
  unfold profileOf
  dsimp only
  split_ifs
  · rfl
  · simp [score, nearestTenth_hundred]

/-- **The vibrato score does not depend on the key, on either side.**  It is a percentage,
the same with the two sides exchanged, and full for the reference sung in any key. -/
theorem vibratoRun_transposed (log2 : K → K) (user reference : PitchCurve K) {c c' : K}
    (hc : 0 < c) (hc' : 0 < c') :
    (vibratoRun log2 (user.transposed c) (reference.transposed c')).score =
      (vibratoRun log2 user reference).score ∧
    0 ≤ (vibratoRun log2 user reference).score ∧ (vibratoRun log2 user reference).score ≤ 100 ∧
    (vibratoRun log2 user reference).score = (vibratoRun log2 reference user).score ∧
    (vibratoRun log2 (reference.transposed c) reference).score = 100 := by
  refine ⟨?_, (score_range _ _).1, (score_range _ _).2, score_comm _ _, ?_⟩
  · simp only [vibratoRun, profileOf_transposed log2 hc, profileOf_transposed log2 hc']
  · simp only [vibratoRun, profileOf_transposed log2 hc, score_self]

/-- A third lower against a tone higher, with the logarithm to first order. -/
theorem vibratoRun_transposed_third :
    (vibratoRun (fun x : ℚ => x - 1) (waveringCurve.transposed (5 / 6))
        (waveringCurve.transposed (9 / 8))).score =
      (vibratoRun (fun x : ℚ => x - 1) waveringCurve waveringCurve).score ∧
    (vibratoRun (fun x : ℚ => x - 1) (waveringCurve.transposed (5 / 6)) waveringCurve).score = 100 := by
  obtain ⟨hkey, -, -, -, hfull⟩ := vibratoRun_transposed (fun x : ℚ => x - 1) waveringCurve
    waveringCurve (show (0 : ℚ) < 5 / 6 by norm_num) (show (0 : ℚ) < 9 / 8 by norm_num)
  exact ⟨hkey, hfull⟩

end Score

end VocalCoach.Vibrato
