/-
# The user-time / reference-time mapping

Models `audio/timemap.py` and the frame lookup of `dsp/pitch_scoring.py`: the
piecewise-linear correspondence a warping path induces, and the walk of
`align_and_compare` that reads, for each user frame, one reference frame through it.
Times are exact rationals; `np.interp` is `Interpolation.interp`, `round` is
`Interpolation.roundHalfEven`.

`referenceIndex_fromWarpingPath` is what the later stages rest on: over a user frame
of the path, the frame read is the last one the path matches it to.  `timeMap_laws` puts it
together with the order and the range of both directions.
-/
import VocalCoach.LatticePath
import VocalCoach.Constants

namespace VocalCoach

open Interpolation LatticePath

/-- `TimeMap`: the matched times on either side. -/
structure TimeMap where
  userTimes : List ℚ
  referenceTimes : List ℚ
  deriving DecidableEq, Repr

namespace TimeMap

/-- `TimeMap.from_warping_path`. -/
def fromWarpingPath (index1 index2 : List ℕ) (hopSeconds : ℚ) : TimeMap where
  userTimes := index1.map fun i : ℕ => (i : ℚ) * hopSeconds
  referenceTimes := index2.map fun j : ℕ => (j : ℚ) * hopSeconds

/-- `TimeMap.user_to_reference`. -/
def userToReference (map : TimeMap) (userTimeSeconds : ℚ) : ℚ :=
  interp userTimeSeconds (map.userTimes.zip map.referenceTimes)

/-- `TimeMap.reference_to_user`. -/
def referenceToUser (map : TimeMap) (referenceTimeSeconds : ℚ) : ℚ :=
  interp referenceTimeSeconds (map.referenceTimes.zip map.userTimes)

/-- The reference frame that corresponds to user frame `i`, before any range check:
`round(time_map.user_to_reference(i * hop_seconds) / hop_seconds)`. -/
def referenceIndex (map : TimeMap) (hopSeconds : ℚ) (i : ℕ) : ℤ :=
  roundHalfEven (map.userToReference (i * hopSeconds) / hopSeconds)

/-- `TimeMap.resample_reference_onto_user_grid`; `none` is the `IndexError` of reading
an empty reference series. -/
def resampleReferenceOntoUserGrid {α : Type*} (map : TimeMap) (userSeries : List α)
    (referenceSeries : List α) (hopSeconds : ℚ) : Option (List α) :=
  let lastIndex : ℤ := referenceSeries.length - 1
  (List.range userSeries.length).mapM fun i =>
    let index := min (max (map.referenceIndex hopSeconds i) 0) lastIndex
    if index < 0 then none else referenceSeries[index.toNat]?

/-- The knots of a path's time map are its scaled points. -/
theorem knots_fromWarpingPath (path : List (ℕ × ℕ)) (hopSeconds : ℚ) :
    (fromWarpingPath (path.map Prod.fst) (path.map Prod.snd) hopSeconds).userTimes.zip
        (fromWarpingPath (path.map Prod.fst) (path.map Prod.snd) hopSeconds).referenceTimes
      = scaled hopSeconds path := by
  simp only [fromWarpingPath, scaled, List.map_map, List.zip_map', Function.comp_apply]

/-- **The frame read over a matched frame.**  Through the time map of a path, user frame
`i` of the path reads the last reference frame the path matches it to. -/
theorem referenceIndex_fromWarpingPath {path : List (ℕ × ℕ)} (h : IsPath path)
    {hopSeconds : ℚ} (hhop : 0 < hopSeconds) {i : ℕ} (hne : fiber path i ≠ []) :
    (fromWarpingPath (path.map Prod.fst) (path.map Prod.snd) hopSeconds).referenceIndex
        hopSeconds i = (fiber path i).getLast hne := by
  rw [referenceIndex, userToReference, knots_fromWarpingPath, interp_scaled h hhop hne,
    mul_div_cancel_right₀ _ hhop.ne']
  exact roundHalfEven_natCast _

/-- **The frame read past the path** is the last one matched: the interpolation clamps. -/
theorem referenceIndex_of_last_le {path : List (ℕ × ℕ)} (h : IsPath path) {p : ℕ × ℕ}
    (hlast : path.getLast? = some p) {hopSeconds : ℚ} (hhop : 0 < hopSeconds) {i : ℕ}
    (hi : p.1 ≤ i) :
    (fromWarpingPath (path.map Prod.fst) (path.map Prod.snd) hopSeconds).referenceIndex
        hopSeconds i = p.2 := by
  have hend : (scaled hopSeconds path).getLast? = some (p.1 * hopSeconds, p.2 * hopSeconds) := by
    rw [scaled, List.getLast?_map, hlast]
    rfl
  have hbefore : ∀ q ∈ scaled hopSeconds path, q.1 ≤ i * hopSeconds := by
    intro q hq
    obtain ⟨r, hr, rfl⟩ := List.mem_map.mp hq
    have hle : r.1 ≤ i := (fst_le_of_getLast h hlast r hr).trans hi
    exact mul_le_mul_of_nonneg_right (by exact_mod_cast hle) hhop.le
  rw [referenceIndex, userToReference, knots_fromWarpingPath, interp_of_forall_le hend hbefore,
    mul_div_cancel_right₀ _ hhop.ne']
  exact roundHalfEven_natCast _

/-- The knots of the inverse are the path's points, the other coordinate first. -/
theorem inverseKnots_fromWarpingPath (path : List (ℕ × ℕ)) (hopSeconds : ℚ) :
    (fromWarpingPath (path.map Prod.fst) (path.map Prod.snd) hopSeconds).referenceTimes.zip
        (fromWarpingPath (path.map Prod.fst) (path.map Prod.snd) hopSeconds).userTimes
      = scaled hopSeconds (path.map Prod.swap) := by
  simp only [fromWarpingPath, scaled, List.map_map, List.zip_map', Function.comp_def, Prod.fst_swap,
    Prod.snd_swap]

/-- **Interpolating through rising points**: it goes up, between the first ordinate and the
last. -/
theorem interp_scaled_mono {path : List (ℕ × ℕ)} (hrise : path.Pairwise (· ≤ ·))
    {first last : ℕ × ℕ} (hfirst : path.head? = some first) (hlast : path.getLast? = some last)
    {step : ℚ} (hstep : 0 < step) :
    (Monotone fun t => interp t (scaled step path)) ∧
      ∀ t, first.2 * step ≤ interp t (scaled step path) ∧
        interp t (scaled step path) ≤ last.2 * step := by
  have hknots : (scaled step path).Pairwise (· ≤ ·) := by
    refine List.pairwise_map.mpr (hrise.imp fun {p q} hpq => ⟨?_, ?_⟩)
    · exact mul_le_mul_of_nonneg_right (by exact_mod_cast hpq.1) hstep.le
    · exact mul_le_mul_of_nonneg_right (by exact_mod_cast hpq.2) hstep.le
  refine ⟨interp_mono hknots, fun t => ?_⟩
  cases path with
  | nil => cases hfirst
  | cons p path =>
    obtain rfl : p = first := Option.some.inj hfirst
    have hend : (scaled step (p :: path)).getLast? = some (last.1 * step, last.2 * step) := by
      rw [scaled, List.getLast?_map, hlast]
      rfl
    exact interp_between hknots hend t

/-- Every frame that is read is in range. -/
theorem resampleReferenceOntoUserGrid_eq {α : Type*} (map : TimeMap)
    (userSeries referenceSeries : List α) (hopSeconds : ℚ) (hne : referenceSeries ≠ []) :
    ∃ aligned, map.resampleReferenceOntoUserGrid userSeries referenceSeries hopSeconds
        = some aligned ∧
      aligned.length = userSeries.length ∧
      ∀ i < userSeries.length, ∃ k < referenceSeries.length,
        (k : ℤ) = min (max (map.referenceIndex hopSeconds i) 0) (referenceSeries.length - 1) ∧
        aligned[i]? = referenceSeries[k]? := by
  have hpos := List.length_pos_iff.mpr hne
  have hread : ∀ i : ℕ, ∃ k, ∃ hk : k < referenceSeries.length,
      (k : ℤ) = min (max (map.referenceIndex hopSeconds i) 0) (referenceSeries.length - 1) := by
    intro i
    refine ⟨(min (max (map.referenceIndex hopSeconds i) 0) (referenceSeries.length - 1)).toNat,
      ?_, ?_⟩ <;> omega
  choose k hk hindex using hread
  refine ⟨(List.range userSeries.length).map fun i => referenceSeries.get ⟨k i, hk i⟩, ?_, ?_, ?_⟩
  · unfold resampleReferenceOntoUserGrid
    dsimp only
    refine Eq.trans ?_ List.mapM_pure
    congr 1
    funext i
    rw [← hindex i, if_neg (by omega), Int.toNat_natCast, List.getElem?_eq_getElem (hk i)]
    rfl
  · rw [List.length_map, List.length_range]
  · intro i hi
    refine ⟨k i, hk i, hindex i, ?_⟩
    rw [List.getElem?_map, List.getElem?_range hi, List.getElem?_eq_getElem (hk i)]
    rfl

/-- **The laws of the time map** of a warping path from `(0, 0)` to `last`:

* either direction is monotone and stays within the matched range of the other side;
* over a user frame of the path, the frame `align_and_compare` reads is one it is matched to;
* resampling reads only frames that are there. -/
theorem timeMap_laws {α : Type*} {path : List (ℕ × ℕ)} (hpath : IsPath path)
    (hstart : path.head? = some (0, 0)) {last : ℕ × ℕ} (hlast : path.getLast? = some last)
    {hopSeconds : ℚ} (hhop : 0 < hopSeconds) (map : TimeMap)
    (hmap : map = fromWarpingPath (path.map Prod.fst) (path.map Prod.snd) hopSeconds) :
    Monotone map.userToReference ∧
    (∀ t, 0 ≤ map.userToReference t ∧ map.userToReference t ≤ last.2 * hopSeconds) ∧
    Monotone map.referenceToUser ∧
    (∀ t, 0 ≤ map.referenceToUser t ∧ map.referenceToUser t ≤ last.1 * hopSeconds) ∧
    (∀ i ∈ path.map Prod.fst, ∃ j, (i, j) ∈ path ∧ map.referenceIndex hopSeconds i = j) ∧
    ∀ (userSeries referenceSeries : List α) (hop : ℚ), referenceSeries ≠ [] →
      ∃ aligned, map.resampleReferenceOntoUserGrid userSeries referenceSeries hop = some aligned ∧
        aligned.length = userSeries.length ∧
        ∀ i < userSeries.length, ∃ k < referenceSeries.length,
          (k : ℤ) = min (max (map.referenceIndex hop i) 0) (referenceSeries.length - 1) ∧
          aligned[i]? = referenceSeries[k]? := by
  subst hmap
  have hrise := hpath.rises
  obtain ⟨hmono, hrange⟩ := interp_scaled_mono hrise hstart hlast hhop
  -- the other direction is that of the path with its sides swapped
  have hswap : (path.map Prod.swap).Pairwise (· ≤ ·) :=
    List.pairwise_map.mpr (hrise.imp fun hpq => ⟨hpq.2, hpq.1⟩)
  have hstart' : (path.map Prod.swap).head? = some (0, 0) := by rw [List.head?_map, hstart]; rfl
  have hlast' : (path.map Prod.swap).getLast? = some last.swap := by
    rw [List.getLast?_map, hlast]
    rfl
  obtain ⟨hmono', hrange'⟩ := interp_scaled_mono hswap hstart' hlast' hhop
  refine ⟨fun s t hst => ?_, fun t => ?_, fun s t hst => ?_, fun t => ?_, ?_, ?_⟩
  · rw [userToReference, userToReference, knots_fromWarpingPath]
    exact hmono hst
  · rw [userToReference, knots_fromWarpingPath]
    simpa using hrange t
  · rw [referenceToUser, referenceToUser, inverseKnots_fromWarpingPath]
    exact hmono' hst
  · rw [referenceToUser, inverseKnots_fromWarpingPath]
    simpa using hrange' t
  · -- the last pair over the frame
    intro i hi
    obtain ⟨⟨i', j⟩, hmem, rfl⟩ := List.mem_map.mp hi
    have hne := ne_nil_of_mem_fiber hmem
    refine ⟨_, mem_fiber.mp (List.getLast_mem hne), ?_⟩
    exact referenceIndex_fromWarpingPath hpath hhop hne
  · intro userSeries referenceSeries hop
    exact resampleReferenceOntoUserGrid_eq _ userSeries referenceSeries hop

/-- A frame matched three times, then a step across and one along the diagonal. -/
theorem timeMap_laws_fourSteps :
    Monotone (fromWarpingPath [0, 0, 0, 1, 2] [0, 1, 2, 2, 3] pitchHopSeconds).userToReference ∧
      Monotone (fromWarpingPath [0, 0, 0, 1, 2] [0, 1, 2, 2, 3] pitchHopSeconds).referenceToUser ∧
      ∃ j : ℕ, (0, j) ∈ [(0, 0), (0, 1), (0, 2), (1, 2), (2, 3)] ∧
        (fromWarpingPath [0, 0, 0, 1, 2] [0, 1, 2, 2, 3] pitchHopSeconds).referenceIndex
          pitchHopSeconds 0 = j := by
  have hpath : IsPath [(0, 0), (0, 1), (0, 2), (1, 2), (2, 3)] := by
    unfold IsPath UnitStep
    decide
  obtain ⟨hmono, -, hmono', -, hmatched, -⟩ := @timeMap_laws ℚ _ hpath rfl (2, 3) rfl
    pitchHopSeconds pitchHopSeconds_pos _ rfl
  exact ⟨hmono, hmono', hmatched 0 (by decide)⟩

end TimeMap

/-! ## `align_and_compare` -/

section Compare

variable {Hz Cents : Type*}

/-- The reference value of frame `index`, `None` outside the curve. -/
def referenceValue (referenceHz : List (Option Hz)) (index : ℤ) : Option Hz :=
  if 0 ≤ index then (referenceHz[index.toNat]?).join else none

/-- `align_and_compare`, over any unit of deviation: `centsDeviation` is
`cents_deviation`. -/
def alignAndCompare (centsDeviation : Hz → Hz → Cents) (userHz referenceHz : List (Option Hz))
    (map : TimeMap) (hopSeconds : ℚ) : List (Option Hz) × List (Option Cents) :=
  let alignedReference := (List.range userHz.length).map fun userIndex =>
    referenceValue referenceHz (map.referenceIndex hopSeconds userIndex)
  let deviations := (userHz.zip alignedReference).map fun pair =>
    match pair with
    | (some user, some reference) => some (centsDeviation user reference)
    | _ => none
  (alignedReference, deviations)

@[simp] theorem length_alignAndCompare_fst (centsDeviation : Hz → Hz → Cents)
    (userHz referenceHz : List (Option Hz)) (map : TimeMap) (hopSeconds : ℚ) :
    (alignAndCompare centsDeviation userHz referenceHz map hopSeconds).1.length
      = userHz.length := by
  simp [alignAndCompare]

/-- What `align_and_compare` sets against user frame `i` is the reference frame
`referenceIndex` names. -/
theorem alignAndCompare_fst_getElem (centsDeviation : Hz → Hz → Cents)
    (userHz referenceHz : List (Option Hz)) (map : TimeMap) (hopSeconds : ℚ) (i : ℕ)
    (hi : i < userHz.length) :
    (alignAndCompare centsDeviation userHz referenceHz map hopSeconds).1[i]?
      = some (referenceValue referenceHz (map.referenceIndex hopSeconds i)) := by
  simp [alignAndCompare, hi]

/-- Both lists have the length of the user curve. -/
@[simp] theorem length_alignAndCompare_snd (centsDeviation : Hz → Hz → Cents)
    (userHz referenceHz : List (Option Hz)) (map : TimeMap) (hopSeconds : ℚ) :
    (alignAndCompare centsDeviation userHz referenceHz map hopSeconds).2.length
      = userHz.length := by
  simp [alignAndCompare]

end Compare

/-- `voiced_fraction`. -/
def voicedFraction {Hz : Type*} (hz : List (Option Hz)) : ℚ :=
  if hz.isEmpty then 0 else (hz.countP Option.isSome : ℚ) / hz.length

end VocalCoach
