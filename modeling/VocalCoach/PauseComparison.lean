/-
# The pauses that are compared

`_pause_regions` and `_score` of `pipeline/stages/breath.py`.  The loop carries the start of the
open run along the way `Runs.scan` does, so its regions are the maximal quiet runs that are long
enough (`pauseRegions_pauses`).

`_score` looks every reference pause up on its own: it counts if some user pause is near.  Two
reference pauses can be near one user pause, and then more are matched than the recording has
(`not_forall_matched_le`).  `pauseComparison` is what holds: the count exceeds that of the user
pauses only if a user pause is near two.
-/
import VocalCoach.KeyNormalization
import VocalCoach.Threads
import VocalCoach.VoiceActivity

namespace VocalCoach

open Interpolation LatticePath

/-! ## The regions -/

/-- A run of frames, in seconds. -/
def inSeconds (hopSeconds : ℚ) (run : ℕ × ℕ) : ℚ × ℚ := (run.1 * hopSeconds, run.2 * hopSeconds)

/-- A run that is long enough for a pause. -/
def longEnough (hopSeconds : ℚ) (run : ℕ × ℕ) : Bool := minPauseFrames hopSeconds ≤ run.2 - run.1

section Regions

variable {rms : List ℚ} {hopSeconds : ℚ}

theorem closeRun_eq (i : ℕ) (start : Option ℕ) : closeRun hopSeconds i start =
    ((start.toList.map fun s => (s, i)).filter (longEnough hopSeconds)).map
      (inSeconds hopSeconds) := by
  cases start with
  | none => rfl
  | some s =>
    rw [Option.toList_some, List.map_singleton, List.filter_singleton, closeRun, longEnough]
    by_cases hlong : minPauseFrames hopSeconds ≤ i - s
    · rw [if_pos hlong, decide_eq_true hlong]
      rfl
    · rw [if_neg hlong, decide_eq_false hlong]
      rfl

/-- **The loop lists the long runs among those of the scan.** -/
theorem pauseLoop_eq (i : ℕ) (start : Option ℕ) (silent : List Bool) :
    pauseLoop hopSeconds i start silent =
      ((Runs.scan i start silent).filter (longEnough hopSeconds)).map (inSeconds hopSeconds) := by
  induction silent generalizing i start with
  | nil => exact closeRun_eq i start
  | cons quiet rest ih =>
    cases quiet with
    | true => exact ih (i + 1) (some (start.getD i))
    | false =>
      show closeRun hopSeconds i start ++ pauseLoop hopSeconds (i + 1) none rest = _
      rw [closeRun_eq, ih, Runs.scan, List.filter_append, List.map_append]

/-- A frame of a loudness envelope is silent if it is not loud. -/
theorem isSilent_eq {peak level : ℚ} (hlevel : 0 ≤ level) :
    isSilent peak level = !loudEnough peak level := by
  rcases hlevel.eq_or_lt with rfl | hpos
  · simp [isSilent, loudEnough]
  · simp [loudEnough, hpos]

/-- What `_pause_regions` is to return: the maximal quiet runs that are long enough, in order
and apart.  Without a positive peak no frame is quiet. -/
structure Pauses (rms : List ℚ) (hopSeconds : ℚ) (regions : List (ℚ × ℚ)) : Prop where
  mem_iff : ∀ region, region ∈ regions ↔ ∃ a b, (0 < peakOf rms ∧ QuietRun rms a b ∧
    minPauseFrames hopSeconds ≤ b - a) ∧ region = (a * hopSeconds, b * hopSeconds)
  apart : regions.Pairwise fun region later => region.2 < later.1

/-- **The regions are the pauses.** -/
theorem pauseRegions_pauses (hrms : ∀ level ∈ rms, 0 ≤ level) (hhop : 0 < hopSeconds) :
    Pauses rms hopSeconds (pauseRegions rms hopSeconds) := by
  by_cases hpeak : 0 < peakOf rms
  · have hquiet : rms.map (isSilent (peakOf rms)) =
        (rms.map (loudEnough (peakOf rms))).map (!·) := by
      rw [List.map_map]
      exact List.map_congr_left fun level hlevel => isSilent_eq (hrms level hlevel)
    have hregions : pauseRegions rms hopSeconds =
        ((Runs.runs ((rms.map (loudEnough (peakOf rms))).map (!·))).filter
          (longEnough hopSeconds)).map (inSeconds hopSeconds) := by
      rw [← hquiet, Runs.runs, ← pauseLoop_eq]
      exact if_neg (not_le.mpr hpeak)
    have hspans := Runs.spans_runs ((rms.map (loudEnough (peakOf rms))).map (!·))
    rw [hregions]
    constructor
    · intro region
      rw [List.mem_map]
      constructor
      · rintro ⟨⟨a, b⟩, hrun, rfl⟩
        obtain ⟨hmem, hlong⟩ := List.mem_filter.mp hrun
        have hquietRun := (quietRun_iff hpeak a b).mpr (hspans.mem_iff.mp hmem)
        exact ⟨a, b, ⟨hpeak, hquietRun, of_decide_eq_true hlong⟩, rfl⟩
      · rintro ⟨a, b, ⟨-, hquietRun, hlong⟩, rfl⟩
        have hmem := hspans.mem_iff.mpr ((quietRun_iff hpeak a b).mp hquietRun)
        exact ⟨(a, b), List.mem_filter.mpr ⟨hmem, decide_eq_true hlong⟩, rfl⟩
    · refine List.pairwise_map.mpr ((hspans.apart.filter _).imp fun {s t} hst => ?_)
      exact mul_lt_mul_of_pos_right (by exact_mod_cast hst) hhop
  · -- a silent track has no pauses
    have hnone : pauseRegions rms hopSeconds = [] := if_pos (not_lt.mp hpeak)
    rw [hnone]
    refine ⟨fun region => iff_of_false List.not_mem_nil ?_, List.Pairwise.nil⟩
    rintro ⟨a, b, ⟨hpos, -⟩, -⟩
    exact hpeak hpos

end Regions

/-! ## The matches -/

/-- The user pause is within the tolerance of where the reference pause is expected. -/
def Near (map : TimeMap) (user reference : ℚ × ℚ) : Bool :=
  |(user.1 + user.2) / 2 - map.referenceToUser ((reference.1 + reference.2) / 2)| ≤
    breathPauseMatchToleranceSeconds

/-- **Counting what is near one of several**: no more than these, if each is near one at most. -/
theorem countP_any_le_length {α β : Type*} {near : β → α → Bool} {l : List α} {centers : List β}
    (hone : ∀ c ∈ centers, l.countP (near c) ≤ 1) :
    l.countP (fun x => centers.any fun c => near c x) ≤ centers.length := by
  induction centers with
  | nil => simp
  | cons c centers ih =>
    have hrest := ih fun d hd => hone d (List.mem_cons_of_mem _ hd)
    have hfirst := hone c List.mem_cons_self
    have hsplit : l.countP (fun x => (c :: centers).any fun d => near d x) ≤
        l.countP (near c) + l.countP fun x => centers.any fun d => near d x := by
      refine Threads.countP_le_add l fun x _ hx => ?_
      rwa [List.any_cons, Bool.or_eq_true] at hx
    rw [List.length_cons]
    omega

section Matches

variable (user reference : List (ℚ × ℚ)) (map : TimeMap)

/-- `_score` counts the reference pauses some user pause is near. -/
theorem breathScore_matched : (breathScore user reference map).2 =
    reference.countP fun region => user.any fun pause => Near map pause region := by
  unfold breathScore
  cases reference with
  | nil => rfl
  | cons region rest =>
    show (comparedPauses user (region :: rest) map).countP Prod.snd = _
    unfold comparedPauses
    rw [List.countP_map]
    apply List.countP_congr
    intro region' _
    simp [Near, List.any_map, Function.comp_def]

/-- The score is a percentage. -/
theorem breathScore_range : 0 ≤ (breathScore user reference map).1 ∧
    (breathScore user reference map).1 ≤ 100 := by
  have hzero : roundTenth 0 = 0 := by decide +kernel
  have hfull : roundTenth 100 = 100 := by decide +kernel
  cases reference with
  | nil =>
    show (0 : ℚ) ≤ 100 ∧ (100 : ℚ) ≤ 100
    norm_num
  | cons region rest =>
    have hcount := List.countP_le_length (p := Prod.snd)
      (l := comparedPauses user (region :: rest) map)
    have hpos : 0 < (comparedPauses user (region :: rest) map).length := by
      simp [comparedPauses]
    have hcount' : ((comparedPauses user (region :: rest) map).countP Prod.snd : ℚ) ≤
        (comparedPauses user (region :: rest) map).length := by exact_mod_cast hcount
    have hpos' : (0 : ℚ) < (comparedPauses user (region :: rest) map).length := by
      exact_mod_cast hpos
    show 0 ≤ roundTenth (100 * _ / _) ∧ roundTenth (100 * _ / _) ≤ 100
    constructor
    · rw [← hzero]
      exact roundTenth_mono (by positivity)
    · rw [← hfull]
      refine roundTenth_mono ?_
      rw [hfull, div_le_iff₀ hpos']
      linarith

end Matches

/-- **The comparison of pauses.**  For any two loudness envelopes and any time map:

* the regions are the maximal quiet runs that are long enough;
* no more reference pauses are matched than there are, none without a user pause, and no more
  than the user pauses, unless a user pause is near two of them;
* the score is a percentage. -/
theorem pauseComparison (userRms referenceRms : List ℚ) {hopSeconds : ℚ} (map : TimeMap)
    (huser : ∀ level ∈ userRms, 0 ≤ level) (hreference : ∀ level ∈ referenceRms, 0 ≤ level)
    (hhop : 0 < hopSeconds) :
    Pauses userRms hopSeconds (pauseRegions userRms hopSeconds) ∧
    Pauses referenceRms hopSeconds (pauseRegions referenceRms hopSeconds) ∧
    (breathScore (pauseRegions userRms hopSeconds) (pauseRegions referenceRms hopSeconds) map).2 ≤
      (pauseRegions referenceRms hopSeconds).length ∧
    (pauseRegions userRms hopSeconds = [] →
      (breathScore (pauseRegions userRms hopSeconds) (pauseRegions referenceRms hopSeconds)
        map).2 = 0) ∧
    ((∀ pause ∈ pauseRegions userRms hopSeconds,
        (pauseRegions referenceRms hopSeconds).countP (Near map pause) ≤ 1) →
      (breathScore (pauseRegions userRms hopSeconds) (pauseRegions referenceRms hopSeconds) map).2 ≤
        (pauseRegions userRms hopSeconds).length) ∧
    0 ≤ (breathScore (pauseRegions userRms hopSeconds) (pauseRegions referenceRms hopSeconds)
      map).1 ∧
    (breathScore (pauseRegions userRms hopSeconds) (pauseRegions referenceRms hopSeconds) map).1 ≤
      100 := by
  refine ⟨pauseRegions_pauses huser hhop, pauseRegions_pauses hreference hhop, ?_, fun hnone => ?_,
    fun hone => ?_, breathScore_range _ _ _⟩
  · rw [breathScore_matched]
    exact List.countP_le_length
  · rw [breathScore_matched, hnone]
    simp
  · rw [breathScore_matched]
    exact countP_any_le_length hone

/-- Two pauses of the reference, less than half a second apart. -/
def twoPauses : List ℚ := [0, 0, 0, 0, 1, 0, 0, 0, 0, 1]

def onePause : List ℚ := [0, 0, 0, 0, 1, 1, 1, 1, 1, 1]

/-- Nobody is ahead. -/
def diagonalPath : List (ℕ × ℕ) := (List.range 50).map fun i => (i, i)

def inStep : TimeMap :=
  .fromWarpingPath (diagonalPath.map Prod.fst) (diagonalPath.map Prod.snd) pitchHopSeconds

/-- Two pauses of the recording against one of the reference. -/
theorem pauseComparison_onePause :
    (breathScore (pauseRegions twoPauses featuresHopSeconds)
      (pauseRegions onePause featuresHopSeconds) inStep).2 ≤
      (pauseRegions twoPauses featuresHopSeconds).length :=
  (pauseComparison twoPauses onePause inStep (by decide +kernel) (by decide +kernel)
    (by decide +kernel)).2.2.2.2.1 (by decide +kernel)

/-- Both pauses of the reference are matched with the one of the recording. -/
theorem not_forall_matched_le :
    ¬ ∀ (userRms referenceRms : List ℚ) (map : TimeMap),
      (∀ level ∈ userRms, 0 ≤ level) → (∀ level ∈ referenceRms, 0 ≤ level) →
      Monotone map.referenceToUser →
      (breathRun userRms referenceRms map).matchedPauses ≤
        (breathRun userRms referenceRms map).userPauseCount := by
  intro h
  have hmonotone : Monotone inStep.referenceToUser := by
    have hrise : (diagonalPath.map Prod.swap).Pairwise (· ≤ ·) := by decide +kernel
    have hknots := TimeMap.inverseKnots_fromWarpingPath diagonalPath pitchHopSeconds
    intro s t hst
    unfold TimeMap.referenceToUser inStep
    rw [hknots]
    exact (TimeMap.interp_scaled_mono hrise rfl rfl pitchHopSeconds_pos).1 hst
  have hle := h onePause twoPauses inStep (by decide +kernel) (by decide +kernel) hmonotone
  have hmatched : (breathRun onePause twoPauses inStep).matchedPauses = 2 ∧
      (breathRun onePause twoPauses inStep).userPauseCount = 1 := by decide +kernel
  omega

end VocalCoach
