/-
# The dynamics and timbre stages

Models `pipeline/stages/dynamics.py` and `pipeline/stages/timbre.py`: the correlation of the
two loudness envelopes and the mean cosine of the two series of MFCC vectors, after the
reference was resampled onto the frames of the recording.  Numbers are those of any ordered
field with a floor; the square root is a parameter.

Both scores are percentages.  A gain on either envelope and an offset leave the dynamics score
as it is (`dynamicsRun_gain`).
-/
import VocalCoach.Similarity
import VocalCoach.TimeMap
import Mathlib.Algebra.Order.Floor.Ring

namespace VocalCoach

open Interpolation Similarity

/-! ## Rounding in any ordered field -/

section Rounding

variable {K : Type*} [Field K] [LinearOrder K] [FloorRing K]

/-- `round(x)`. -/
def nearestEven (x : K) : ℤ :=
  let below := ⌊x⌋
  if x - below < 1 / (2 : ℕ) then below
  else if 1 / (2 : ℕ) < x - below then below + 1
  else if below % 2 = 0 then below
  else below + 1

/-- `round(x, 1)`. -/
def nearestTenth (x : K) : K := nearestEven (x * (10 : ℕ)) / (10 : ℕ)

theorem nearestTenth_eq (x : K) : nearestTenth x = nearestEven (x * 10) / 10 := by
  simp only [nearestTenth, Nat.cast_ofNat]

theorem nearestEven_bounds (x : K) : ⌊x⌋ ≤ nearestEven x ∧ nearestEven x ≤ ⌊x⌋ + 1 := by
  unfold nearestEven
  dsimp only
  split_ifs <;> omega

variable [IsStrictOrderedRing K]

/-- **Rounding stays between integers.** -/
theorem nearestEven_between {x : K} {m n : ℤ} (hlow : m ≤ x) (hhigh : x ≤ n) :
    m ≤ nearestEven x ∧ nearestEven x ≤ n := by
  obtain ⟨hbelow, habove⟩ := nearestEven_bounds x
  refine ⟨(Int.le_floor.mpr hlow).trans hbelow, ?_⟩
  rcases hhigh.eq_or_lt with rfl | hlt
  · unfold nearestEven
    dsimp only
    rw [Int.floor_intCast, if_pos (by norm_num)]
  · have hfloor : ⌊x⌋ < n := Int.floor_lt.mpr hlt
    omega

theorem nearestTenth_between {x : K} (hlow : 0 ≤ x) (hhigh : x ≤ 100) :
    0 ≤ nearestTenth x ∧ nearestTenth x ≤ 100 := by
  obtain ⟨hfrom, hto⟩ := nearestEven_between (x := x * 10) (m := 0) (n := 1000)
    (by push_cast; linarith) (by push_cast; linarith)
  have hfrom' : (0 : K) ≤ nearestEven (x * 10) := by exact_mod_cast hfrom
  have hto' : (nearestEven (x * 10) : K) ≤ 1000 := by exact_mod_cast hto
  rw [nearestTenth_eq]
  constructor
  · positivity
  · rw [div_le_iff₀ (by norm_num)]
    linarith

theorem nearestTenth_hundred : nearestTenth (100 : K) = 100 := by
  obtain ⟨hfrom, hto⟩ := nearestEven_between (x := (100 : K) * 10) (m := 1000) (n := 1000)
    (by norm_num) (by norm_num)
  rw [nearestTenth_eq, le_antisymm hto hfrom]
  norm_num

/-- A percentage made from a share. -/
theorem share_range {share : K} (h : share ≤ 1) :
    0 ≤ nearestTenth (100 * max 0 share) ∧ nearestTenth (100 * max 0 share) ≤ 100 := by
  have hshare : max 0 share ≤ 1 := max_le zero_le_one h
  apply nearestTenth_between
  · positivity
  · linarith

end Rounding


/-! ## `DynamicsStage` -/

section Stages

variable {K : Type*} [Field K] [LinearOrder K] [FloorRing K]

/-- `StageResult.data` of `DynamicsStage`. -/
structure DynamicsData (K : Type*) where
  score : K
  correlation : K
  deriving DecidableEq, Repr

/-- `DynamicsStage.run`; `none` is the `IndexError` of an empty reference. -/
def dynamicsRun (sqrt : K → K) (userRms referenceRms : List K) (map : TimeMap) :
    Option (DynamicsData K) := do
  let alignedReference ←
    map.resampleReferenceOntoUserGrid userRms referenceRms featuresHopSeconds
  let correlation := correlation sqrt userRms alignedReference
  pure { score := nearestTenth (100 * max 0 correlation), correlation }

/-! ## `TimbreStage` -/

/-- `StageResult.data` of `TimbreStage`. -/
structure TimbreData (K : Type*) where
  score : K
  meanCosineSimilarity : K
  deriving DecidableEq, Repr

/-- `TimbreStage.run`, whose loop looks its frames up as `resample_reference_onto_user_grid`
does. -/
def timbreRun (sqrt : K → K) (userMfcc referenceMfcc : List (List K)) (map : TimeMap) :
    Option (TimbreData K) := do
  let alignedReference ←
    map.resampleReferenceOntoUserGrid userMfcc referenceMfcc featuresHopSeconds
  let similarities := List.zipWith (cosine sqrt) userMfcc alignedReference
  let meanSimilarity :=
    if similarities.isEmpty then 0 else similarities.sum / similarities.length
  pure { score := nearestTenth (100 * max 0 meanSimilarity), meanCosineSimilarity := meanSimilarity }

/-! ## What the scores depend on -/

theorem mapM_map_option {α β γ : Type*} (f : β → γ) (g : α → Option β) (l : List α) :
    l.mapM (fun a => (g a).map f) = (l.mapM g).map (List.map f) := by
  induction l with
  | nil => rfl
  | cons a l ih =>
    rw [List.mapM_cons, List.mapM_cons, ih]
    cases g a with
    | none => rfl
    | some b => cases l.mapM g <;> rfl

/-- Resampling looks positions up: it goes with any change of the values, and of the recording
it takes the number of frames only. -/
theorem resample_map {α β : Type*} (map : TimeMap) (f : α → β) {user : List β} {user' : List α}
    (hlength : user.length = user'.length) (reference : List α) (hop : ℚ) :
    map.resampleReferenceOntoUserGrid user (reference.map f) hop =
      (map.resampleReferenceOntoUserGrid user' reference hop).map (List.map f) := by
  unfold TimeMap.resampleReferenceOntoUserGrid
  dsimp only
  rw [← mapM_map_option, hlength, List.length_map]
  congr 1
  funext i
  split_ifs
  · rfl
  · rw [List.getElem?_map]

/-- A resampled series has the frames of the recording. -/
theorem length_resample {α : Type*} {map : TimeMap} {user reference aligned : List α} {hop : ℚ}
    (h : map.resampleReferenceOntoUserGrid user reference hop = some aligned) :
    aligned.length = user.length := by
  by_cases hne : reference = []
  · -- nothing to read from, so nothing is read
    subst hne
    cases user with
    | nil =>
      have hnil : some [] = some aligned := h
      rw [← Option.some.inj hnil]
    | cons x user =>
      have hnone : map.resampleReferenceOntoUserGrid (x :: user) [] hop = none := by
        unfold TimeMap.resampleReferenceOntoUserGrid
        dsimp only
        rw [List.length_cons, List.range_succ_eq_map, List.mapM_cons, if_pos (by
          rw [List.length_nil]
          omega)]
        rfl
      rw [hnone] at h
      cases h
  · obtain ⟨aligned', haligned, hlength, -⟩ :=
      TimeMap.resampleReferenceOntoUserGrid_eq map user reference hop hne
    rw [haligned] at h
    rw [← Option.some.inj h, hlength]

variable [IsStrictOrderedRing K] {sqrt : K → K} {map : TimeMap}

theorem dynamicsRun_range {userRms referenceRms : List K} {data : DynamicsData K}
    (h : dynamicsRun sqrt userRms referenceRms map = some data) :
    0 ≤ data.score ∧ data.score ≤ 100 := by
  obtain ⟨aligned, -, hdata⟩ := Option.bind_eq_some_iff.mp h
  obtain rfl := Option.some.inj hdata
  exact share_range (correlation_range userRms aligned).2

/-- **The dynamics score is about the shape of the envelopes**: gains and offsets on either
side leave the result as it is. -/
theorem dynamicsRun_gain (hsqrt : IsSqrt sqrt) (userRms referenceRms : List K) (map : TimeMap)
    {gain gain' : K} (level level' : K) (hgain : 0 < gain) (hgain' : 0 < gain') :
    dynamicsRun sqrt (userRms.map fun x => gain * x + level)
        (referenceRms.map fun x => gain' * x + level') map =
      dynamicsRun sqrt userRms referenceRms map := by
  unfold dynamicsRun
  rw [resample_map map _ (List.length_map _)]
  cases haligned : map.resampleReferenceOntoUserGrid userRms referenceRms featuresHopSeconds with
  | none => rfl
  | some aligned =>
    have hlength := length_resample haligned
    have hcorrelation : correlation sqrt (userRms.map fun x => gain * x + level)
        (aligned.map fun x => gain' * x + level') = correlation sqrt userRms aligned := by
      rw [correlation_affine hsqrt hgain level (by rw [List.length_map, hlength]),
        correlation_comm hsqrt (by rw [List.length_map, hlength]),
        correlation_affine hsqrt hgain' level' hlength, correlation_comm hsqrt hlength]
    simp only [Option.map_some, Option.bind_eq_bind, Option.bind_some, hcorrelation]

theorem timbreRun_range (hsqrt : IsSqrt sqrt) {userMfcc referenceMfcc : List (List K)}
    {data : TimbreData K} (h : timbreRun sqrt userMfcc referenceMfcc map = some data) :
    0 ≤ data.score ∧ data.score ≤ 100 := by
  obtain ⟨aligned, -, hdata⟩ := Option.bind_eq_some_iff.mp h
  obtain rfl := Option.some.inj hdata
  dsimp only
  apply share_range
  split_ifs with hempty
  · exact zero_le_one
  · -- a mean of cosines
    have hpos : 0 < (List.zipWith (cosine sqrt) userMfcc aligned).length :=
      List.length_pos_iff.mpr (by simpa using hempty)
    have hpos' : (0 : K) < (List.zipWith (cosine sqrt) userMfcc aligned).length := by
      exact_mod_cast hpos
    have hsum : (List.zipWith (cosine sqrt) userMfcc aligned).sum ≤
        (List.zipWith (cosine sqrt) userMfcc aligned).length • (1 : K) := by
      refine List.sum_le_card_nsmul _ _ fun c hc => ?_
      obtain ⟨v, w, rfl⟩ : ∃ v w, c = cosine sqrt v w := by
        rw [← List.map_uncurry_zip_eq_zipWith] at hc
        obtain ⟨pair, -, rfl⟩ := List.mem_map.mp hc
        exact ⟨_, _, rfl⟩
      exact (abs_le.mp (abs_cosine_le_one hsqrt v w)).2
    rw [div_le_one hpos']
    simpa using hsum

end Stages

end VocalCoach
