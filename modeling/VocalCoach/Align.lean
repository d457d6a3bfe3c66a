/-
# The align stage and its time axis

Models `pipeline/stages/align.py`: the crop to the overlap, one two-level alignment
attempt against the reference from a start offset on, the bounded search for such an
offset after the direct attempt failed, and what `AlignStage.run` stores.

The later stages rebuild a time map from the stored `index1`/`index2` and read the
**full** reference curve through it.  On the fallback path the indexes count from the
start of the cropped curve `reference_hz[k:]`, so the frame read is `k` frames early;
`alignStage_absolute_reference_iff` says exactly when a later stage still reads a frame
the user frame was matched to, `not_forall_readsMatchedFrames` is a run where it does not.

`dist` (the frame distance, `embeddingDistance` over the reals) and `argsort`
(`np.argsort`) are parameters.
-/
import VocalCoach.Dtw
import VocalCoach.PitchEmbedding
import Mathlib.Data.List.Sort

namespace VocalCoach

open Interpolation LatticePath

section Align

variable {Hz K : Type*} [Field K] [LinearOrder K]

/-- `_crop_to_overlap`. -/
def cropToOverlap {α : Type*} (user reference : List α) (coarseBand : ℕ) :
    List α × List α × Bool :=
  let n := user.length
  let m := reference.length
  if (n : ℤ) - m ≤ coarseBand ∧ (m : ℤ) - n ≤ coarseBand then (user, reference, false)
  else if n < m then (user, reference.take n, true)
  else (user.take m, reference, true)

/-- `xs[::stride]`. -/
def strided {α : Type*} (xs : List α) (stride : ℕ) : List α :=
  (List.range ((xs.length + stride - 1) / stride)).filterMap fun t => xs[t * stride]?

/-- `_AlignAttempt`. -/
structure AlignAttempt (K : Type*) where
  fine : WarpingPath K
  coarse : WarpingPath K
  lengthMismatch : Bool

/-- `max(1, round(x))` for the stride and the two band radii. -/
def atLeastOne (x : ℚ) : ℕ := (max 1 (roundHalfEven x)).toNat

def coarseStride : ℕ := atLeastOne (featuresHopSeconds / pitchHopSeconds)

def coarseBand : ℕ := atLeastOne (alignWindowSeconds / featuresHopSeconds)

def refineBand : ℕ := atLeastOne (alignRefineWindowSeconds / pitchHopSeconds)

/-- `PITCH_HOP_SECONDS`, the double it is. -/
def pitchHopDouble : ℚ := nearestDouble pitchHopSeconds

/-- `coarse_stride * PITCH_HOP_SECONDS`. -/
def coarseHopDouble (stride : ℕ) : ℚ := nearestDouble (stride * pitchHopDouble)

example : coarseStride = 5 ∧ coarseBand = 200 ∧ refineBand = 20 := by decide +kernel

/-- `_attempt_align`: crop, coarse pass, refine pass, against `reference_hz[offset:]`. -/
def attemptAlign (dist : Option Hz → Option Hz → K) (userHz referenceHz : List (Option Hz))
    (offsetFrames stride coarseBand refineBand : ℕ) :
    Except (AlignError K) (AlignAttempt K) := do
  let offsetReference := referenceHz.drop offsetFrames
  let (userCoarse, referenceCoarse, lengthMismatch) :=
    cropToOverlap (strided userHz stride) (strided offsetReference stride) coarseBand
  let coarse ← bandedDtw dist userCoarse referenceCoarse coarseBand none
  let keepFrames := min userCoarse.length referenceCoarse.length * stride
  let userFine := if lengthMismatch then userHz.take keepFrames else userHz
  let referenceFine := if lengthMismatch then offsetReference.take keepFrames else offsetReference
  let center := refineCenter coarse (coarseHopDouble stride) pitchHopDouble
    userFine.length referenceFine.length
  let fine ← bandedDtw dist userFine referenceFine refineBand (some center)
  return ⟨fine, coarse, lengthMismatch⟩

/-- The acceptance ceiling both paths use. -/
def withinCeiling (attempt : AlignAttempt K) : Prop :=
  attempt.fine.normalizedDistance ≤ (alignPitchMaxNormalizedDistance : ℚ)

instance (attempt : AlignAttempt K) : Decidable (withinCeiling attempt) :=
  inferInstanceAs (Decidable (_ ≤ _))

/-- The loop over the candidate offsets.  Only `AlignmentFailed` is swallowed. -/
def tryCandidates (dist : Option Hz → Option Hz → K) (userHz referenceHz : List (Option Hz))
    (scores : List (WithTop K)) (original : AlignError K) :
    List ℕ → Except (AlignError K) (ℕ × AlignAttempt K)
  | [] => .error original
  | candidate :: rest =>
      if candidate = 0 ∨ scores.getD candidate ⊤ = ⊤ then
        tryCandidates dist userHz referenceHz scores original rest
      else match attemptAlign dist userHz referenceHz candidate coarseStride coarseBand
          refineBand with
        | .error e =>
            if e.errorClass = .alignmentFailed then
              tryCandidates dist userHz referenceHz scores original rest
            else .error e
        | .ok attempt =>
            if withinCeiling attempt then .ok (candidate, attempt)
            else tryCandidates dist userHz referenceHz scores original rest

/-- `_find_reference_start_offset`. -/
def findReferenceStartOffset (dist : Option Hz → Option Hz → K)
    (argsort : List (WithTop K) → List ℕ) (userHz referenceHz : List (Option Hz))
    (original : AlignError K) : Except (AlignError K) (ℕ × AlignAttempt K) :=
  let maxOffsetFrames : ℤ :=
    min (roundHalfEven (alignMaxStartOffsetSeconds / pitchHopSeconds)) (referenceHz.length - 1)
  if maxOffsetFrames < 1 then .error original
  else
    let scores := locateStartOffsetScores dist userHz referenceHz maxOffsetFrames
    let candidates := (argsort scores).take alignStartOffsetCandidateCount
    tryCandidates dist userHz referenceHz scores original candidates

/-- `StageResult.data` of `AlignStage`. -/
structure AlignData (Hz K : Type*) where
  index1 : List ℕ
  index2 : List ℕ
  hopSeconds : ℚ
  normalizedDistance : K
  coarseNormalizedDistance : K
  lengthMismatch : Bool
  referenceStartOffsetSeconds : ℚ
  userPitchCurve : List (Option Hz)
  deriving DecidableEq, Repr

/-- What `AlignStage.run` stores for an attempt accepted at `offsetFrames`. -/
def AlignData.ofAttempt (userHz : List (Option Hz)) (offsetFrames : ℕ)
    (attempt : AlignAttempt K) : AlignData Hz K where
  index1 := attempt.fine.index1
  index2 := attempt.fine.index2
  hopSeconds := pitchHopSeconds
  normalizedDistance := attempt.fine.normalizedDistance
  coarseNormalizedDistance := attempt.coarse.normalizedDistance
  lengthMismatch := attempt.lengthMismatch
  referenceStartOffsetSeconds := offsetFrames * pitchHopSeconds
  userPitchCurve := userHz

/-- The direct attempt with its ceiling check: `except AlignmentFailed` is left to the
caller. -/
def directAttempt (dist : Option Hz → Option Hz → K) (userHz referenceHz : List (Option Hz)) :
    Except (AlignError K) (AlignAttempt K) :=
  match attemptAlign dist userHz referenceHz 0 coarseStride coarseBand refineBand with
  | .error e => .error e
  | .ok attempt =>
      if withinCeiling attempt then .ok attempt
      else .error (.overCeiling attempt.fine.normalizedDistance)

/-- `AlignStage.run`, from the user's detected pitch curve on. -/
def alignStageRun (dist : Option Hz → Option Hz → K) (argsort : List (WithTop K) → List ℕ)
    (userHz referenceHz : List (Option Hz)) : Except (AlignError K) (AlignData Hz K) :=
  if voicedFraction userHz < minVoicedFraction then .error (.noVoice (voicedFraction userHz))
  else match directAttempt dist userHz referenceHz with
    | .ok attempt => .ok (.ofAttempt userHz 0 attempt)
    | .error e =>
        if e.errorClass = .alignmentFailed then
          (findReferenceStartOffset dist argsort userHz referenceHz e).map fun found =>
            .ofAttempt userHz found.1 found.2
        else .error e

/-! ## What is stored comes from one attempt -/

/-- An accepted candidate is an attempt at that offset, which is not zero. -/
theorem tryCandidates_ok {dist : Option Hz → Option Hz → K} {userHz referenceHz : List (Option Hz)}
    {scores : List (WithTop K)} {original : AlignError K} {candidates : List ℕ} {k : ℕ}
    {attempt : AlignAttempt K}
    (h : tryCandidates dist userHz referenceHz scores original candidates = .ok (k, attempt)) :
    0 < k ∧ attemptAlign dist userHz referenceHz k coarseStride coarseBand refineBand
      = .ok attempt := by
  induction candidates with
  | nil => cases h
  | cons candidate rest ih =>
    rw [tryCandidates] at h
    split at h
    · exact ih h
    next hzero =>
      split at h
      · split at h
        · exact ih h
        · cases h
      next found hfound =>
        split at h
        · cases h
          exact ⟨Nat.pos_of_ne_zero fun hk => hzero (Or.inl hk), hfound⟩
        · exact ih h

theorem findReferenceStartOffset_ok {dist : Option Hz → Option Hz → K}
    {argsort : List (WithTop K) → List ℕ} {userHz referenceHz : List (Option Hz)}
    {original : AlignError K} {k : ℕ} {attempt : AlignAttempt K}
    (h : findReferenceStartOffset dist argsort userHz referenceHz original = .ok (k, attempt)) :
    0 < k ∧ attemptAlign dist userHz referenceHz k coarseStride coarseBand refineBand
      = .ok attempt := by
  unfold findReferenceStartOffset at h
  dsimp only at h
  split_ifs at h
  exact tryCandidates_ok h

theorem directAttempt_ok {dist : Option Hz → Option Hz → K} {userHz referenceHz : List (Option Hz)}
    {attempt : AlignAttempt K} (h : directAttempt dist userHz referenceHz = .ok attempt) :
    attemptAlign dist userHz referenceHz 0 coarseStride coarseBand refineBand = .ok attempt := by
  unfold directAttempt at h
  split at h
  · cases h
  next found hfound =>
    split_ifs at h
    rw [hfound, Except.ok.inj h]

/-- **The stored result is one attempt**, the direct one or the one accepted at a
positive offset after it failed. -/
theorem alignStageRun_ok {dist : Option Hz → Option Hz → K} {argsort : List (WithTop K) → List ℕ}
    {userHz referenceHz : List (Option Hz)} {data : AlignData Hz K}
    (h : alignStageRun dist argsort userHz referenceHz = .ok data) :
    ∃ k attempt, data = .ofAttempt userHz k attempt ∧
      attemptAlign dist userHz referenceHz k coarseStride coarseBand refineBand = .ok attempt ∧
      (k = 0 ↔ ∃ direct, directAttempt dist userHz referenceHz = .ok direct) := by
  unfold alignStageRun at h
  split_ifs at h
  split at h
  next attempt hdirect =>
    exact ⟨0, attempt, (Except.ok.inj h).symm, directAttempt_ok hdirect, by simp [hdirect]⟩
  next e hdirect =>
    split_ifs at h
    cases hfind : findReferenceStartOffset dist argsort userHz referenceHz e with
    | error e' => rw [hfind] at h; cases h
    | ok found =>
      rw [hfind] at h
      obtain ⟨hk, hattempt⟩ := findReferenceStartOffset_ok hfind
      exact ⟨found.1, found.2, (Except.ok.inj h).symm, hattempt, by simp [hdirect]; omega⟩

/-- The fine path of an attempt is a lattice path with its pairs stored in parallel. -/
theorem attemptAlign_fine {dist : Option Hz → Option Hz → K} {userHz referenceHz : List (Option Hz)}
    {k stride cb rb : ℕ} {attempt : AlignAttempt K}
    (h : attemptAlign dist userHz referenceHz k stride cb rb = .ok attempt) :
    ∃ path, IsPath path ∧ attempt.fine.index1 = path.map Prod.fst ∧
      attempt.fine.index2 = path.map Prod.snd := by
  unfold attemptAlign at h
  dsimp only at h
  cases hcoarse : bandedDtw dist
      (cropToOverlap (strided userHz stride) (strided (referenceHz.drop k) stride) cb).1
      (cropToOverlap (strided userHz stride) (strided (referenceHz.drop k) stride) cb).2.1
      cb none with
  | error e => rw [hcoarse] at h; cases h
  | ok coarse =>
    rw [hcoarse] at h
    simp only [bind, Except.bind] at h
    split at h
    · cases h
    next fine hfine =>
      obtain ⟨pairs, hpairs, h1, h2⟩ := bandedDtw_ok hfine
      cases h
      exact ⟨pairs, hpairs ▸ isPath_backtrack _ _ _, h1, h2⟩

/-! ## The time axis of the stored result -/

/-- The stored fine warping path. -/
def AlignData.path (data : AlignData Hz K) : List (ℕ × ℕ) := data.index1.zip data.index2

/-- `TimeMap.from_align_stage_data`. -/
def AlignData.timeMap (data : AlignData Hz K) : TimeMap :=
  .fromWarpingPath data.index1 data.index2 data.hopSeconds

/-- The reference frame `align_and_compare` sets against user frame `i` when a later
stage walks the full reference curve through the stored result. -/
def AlignData.comparedFrame (data : AlignData Hz K) (i : ℕ) : ℤ :=
  data.timeMap.referenceIndex pitchHopSeconds i

/-- Every user frame of the path is compared with a frame DTW matched it to, on the time
axis of the full reference, `k` frames after the start of the curve that was aligned. -/
def ReadsMatchedFrames (data : AlignData Hz K) (k : ℕ) : Prop :=
  ∀ i j, (i, j) ∈ data.path → ∃ j', (i, j') ∈ data.path ∧ data.comparedFrame i = j' + k

omit [Field K] [LinearOrder K] in
/-- The stored pairs are those of the attempt's path. -/
theorem AlignData.path_ofAttempt {userHz : List (Option Hz)} {k : ℕ} {attempt : AlignAttempt K}
    {path : List (ℕ × ℕ)} (h1 : attempt.fine.index1 = path.map Prod.fst)
    (h2 : attempt.fine.index2 = path.map Prod.snd) :
    (AlignData.ofAttempt userHz k attempt).path = path := by
  simp only [AlignData.path, AlignData.ofAttempt, h1, h2, List.zip_map', Prod.mk.eta, List.map_id']

omit [Field K] [LinearOrder K] in
/-- **The frame compared is the last one matched**, on the axis of the cropped curve. -/
theorem AlignData.comparedFrame_ofAttempt {userHz : List (Option Hz)} {k : ℕ}
    {attempt : AlignAttempt K} {path : List (ℕ × ℕ)} (hpath : IsPath path)
    (h1 : attempt.fine.index1 = path.map Prod.fst)
    (h2 : attempt.fine.index2 = path.map Prod.snd) {i : ℕ} (hne : fiber path i ≠ []) :
    (AlignData.ofAttempt userHz k attempt).comparedFrame i = (fiber path i).getLast hne := by
  simp only [AlignData.comparedFrame, AlignData.timeMap, AlignData.ofAttempt, h1, h2]
  exact TimeMap.referenceIndex_fromWarpingPath hpath pitchHopSeconds_pos hne

/-- The attempt at an offset of `k` frames matches every user frame of its path to more
than `k` frames of the cropped reference. -/
def MatchedBeyond (dist : Option Hz → Option Hz → K) (userHz referenceHz : List (Option Hz))
    (k : ℕ) : Prop :=
  ∃ attempt, attemptAlign dist userHz referenceHz k coarseStride coarseBand refineBand
      = .ok attempt ∧
    ∀ i ∈ attempt.fine.index1, k < attempt.fine.index1.count i

/-- **Exactly when the comparison reads a matched frame.**  Let the stored result carry
the start offset of `k` frames.  The later stages compare every user frame of the path
with a frame it was matched to if and only if the direct attempt was accepted or the
attempt at `k` matches every user frame to more than `k` frames. -/
theorem alignStage_absolute_reference_iff (dist : Option Hz → Option Hz → K)
    (argsort : List (WithTop K) → List ℕ) (userHz referenceHz : List (Option Hz))
    (data : AlignData Hz K) (k : ℕ)
    (hrun : alignStageRun dist argsort userHz referenceHz = .ok data)
    (hk : data.referenceStartOffsetSeconds = k * pitchHopSeconds) :
    ReadsMatchedFrames data k ↔
      (∃ direct, directAttempt dist userHz referenceHz = .ok direct) ∨
        MatchedBeyond dist userHz referenceHz k := by
  obtain ⟨offset, attempt, rfl, hattempt, hdirect⟩ := alignStageRun_ok hrun
  have hoffset : offset = k := by
    have := mul_right_cancel₀ pitchHopSeconds_pos.ne' hk
    exact_mod_cast this
  subst hoffset
  obtain ⟨path, hpath, h1, h2⟩ := attemptAlign_fine hattempt
  have hstored : (AlignData.ofAttempt userHz offset attempt).path = path :=
    AlignData.path_ofAttempt h1 h2
  -- over one user frame, both sides speak of the fiber of the path there
  have hframe : ∀ i (hne : fiber path i ≠ []),
      (∃ j', (i, j') ∈ path ∧
        (AlignData.ofAttempt userHz offset attempt).comparedFrame i = j' + offset) ↔
      offset < attempt.fine.index1.count i := by
    intro i hne
    rw [AlignData.comparedFrame_ofAttempt hpath h1 h2 hne, h1, count_fst_eq_length_fiber,
      ← exists_mem_add_eq_getLast_iff hpath hne]
    exact exists_congr fun j' => and_congr_right fun _ => by omega
  rw [ReadsMatchedFrames, hstored]
  constructor
  · intro hreads
    refine Or.inr ⟨attempt, hattempt, fun i hi => ?_⟩
    rw [h1] at hi
    obtain ⟨⟨i', j⟩, hmem, rfl⟩ := List.mem_map.mp hi
    exact (hframe i' (ne_nil_of_mem_fiber hmem)).mp (hreads i' j hmem)
  · rintro hcases i j hmem
    apply (hframe i (ne_nil_of_mem_fiber hmem)).mpr
    have hi : i ∈ attempt.fine.index1 := h1 ▸ List.mem_map_of_mem (f := Prod.fst) hmem
    rcases hcases with haccepted | ⟨attempt', hattempt', hcount⟩
    · rw [hdirect.mpr haccepted]
      exact List.count_pos_iff.mpr hi
    · rw [hattempt] at hattempt'
      cases hattempt'
      exact hcount i hi

end Align

/-! ## A start in the middle

Three voiced frames sung over a reference with five silent frames in front: the direct
attempt is over the ceiling and the fallback accepts the offset of five frames. -/

/-- `np.argsort`. -/
def argsort (scores : List (WithTop ℚ)) : List ℕ :=
  (List.range scores.length).insertionSort fun i j => scores.getD i ⊤ ≤ scores.getD j ⊤

def lateStartUserHz : List (Option ℚ) := List.replicate 3 (some 220)

def lateStartReferenceHz : List (Option ℚ) :=
  List.replicate 5 none ++ List.replicate 3 (some 220) ++ [none]

def lateStartData : AlignData ℚ ℚ where
  index1 := [0, 0, 1, 2]
  index2 := [0, 1, 2, 3]
  hopSeconds := 1 / 100
  normalizedDistance := 1 / 4
  coarseNormalizedDistance := 0
  lengthMismatch := false
  referenceStartOffsetSeconds := 5 / 100
  userPitchCurve := lateStartUserHz

theorem alignStageRun_lateStart :
    alignStageRun voicingDistance argsort lateStartUserHz lateStartReferenceHz
      = .ok lateStartData := by
  decide +kernel

theorem alignStage_absolute_reference_iff_lateStart :
    ReadsMatchedFrames lateStartData 5 ↔
      (∃ direct, directAttempt voicingDistance lateStartUserHz lateStartReferenceHz
          = .ok direct) ∨
        MatchedBeyond voicingDistance lateStartUserHz lateStartReferenceHz 5 :=
  alignStage_absolute_reference_iff voicingDistance argsort lateStartUserHz
    lateStartReferenceHz lateStartData 5 alignStageRun_lateStart (by decide +kernel)

/-- The first user frame is read at frame `1` of the full reference, four frames before
any frame it was matched to. -/
theorem not_forall_readsMatchedFrames :
    ¬ ∀ (userHz referenceHz : List (Option ℚ)) (data : AlignData ℚ ℚ) (k : ℕ),
      alignStageRun voicingDistance argsort userHz referenceHz = .ok data →
      data.referenceStartOffsetSeconds = k * pitchHopSeconds → ReadsMatchedFrames data k := by
  intro h
  obtain ⟨j', -, hcompared⟩ := h lateStartUserHz lateStartReferenceHz lateStartData 5
    alignStageRun_lateStart (by decide +kernel) 0 0 (by decide)
  have hframe : lateStartData.comparedFrame 0 = 1 := by decide +kernel
  omega

end VocalCoach
