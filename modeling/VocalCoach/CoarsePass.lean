/-
# The coarse pass after the crop

`_crop_to_overlap` and the first `banded_dtw` of `_attempt_align`, around the literal
diagonal.  Two sequences whose lengths differ by no more than the band leave a corridor open
along the diagonal (`exists_diagonal_inBandPath`), whatever they contain, and the crop leaves
only such sequences (`cropToOverlap_near`).

`coarsePass_succeeds` puts the two together: under the size guard the coarse pass never raises
`AlignmentFailed`.
-/
import VocalCoach.Align
import VocalCoach.Corridors
import VocalCoach.DtwOptimal

namespace VocalCoach

open LatticePath

variable {α K : Type*} {a b : List α} {band : ℕ}

/-! ## The crop -/

/-- **The crop** keeps a nonempty prefix of either side, and their lengths apart by no more
than the band. -/
theorem cropToOverlap_near {user reference : List α} (huser : user ≠ [])
    (hreference : reference ≠ []) (band : ℕ) :
    (cropToOverlap user reference band).1 <+: user ∧
      (cropToOverlap user reference band).2.1 <+: reference ∧
      (cropToOverlap user reference band).1 ≠ [] ∧
      (cropToOverlap user reference band).2.1 ≠ [] ∧
      |((cropToOverlap user reference band).1.length : ℤ) -
        (cropToOverlap user reference band).2.1.length| ≤ band := by
  have hn := List.length_pos_iff.mpr huser
  have hm := List.length_pos_iff.mpr hreference
  unfold cropToOverlap
  dsimp only
  split_ifs with hnear hshorter
  · -- the band makes up for the difference
    refine ⟨List.prefix_rfl, List.prefix_rfl, huser, hreference, ?_⟩
    rw [abs_le]
    dsimp only
    omega
  · -- the reference is cut
    have hlength : (reference.take user.length).length = user.length :=
      List.length_take_of_le hshorter.le
    refine ⟨List.prefix_rfl, List.take_prefix _ _, huser, ?_, ?_⟩
    · exact List.length_pos_iff.mp (hn.trans_eq hlength.symm)
    · rw [abs_le]
      dsimp only
      omega
  · -- the recording is cut
    have hlength : (user.take reference.length).length = reference.length :=
      List.length_take_of_le (not_lt.mp hshorter)
    refine ⟨List.take_prefix _ _, List.prefix_rfl, ?_, hreference, ?_⟩
    · exact List.length_pos_iff.mp (hm.trans_eq hlength.symm)
    · rw [abs_le]
      dsimp only
      omega

/-! ## The band around the diagonal -/

theorem getD_diagonalCenter {n i : ℕ} (h : i ≤ n) : (diagonalCenter n).getD i 0 = i := by
  unfold diagonalCenter
  rw [List.getD_eq_getElem?_getD, List.getElem?_map, List.getElem?_range (by omega)]
  rfl

/-- **Lengths no further apart than the band** leave a path in the band around the diagonal. -/
theorem exists_diagonal_inBandPath (ha : a ≠ []) (hb : b ≠ [])
    (hnear : |(a.length : ℤ) - b.length| ≤ band) :
    ∃ path, InBandPath a b (diagonalCenter a.length) band path := by
  have hn := List.length_pos_iff.mpr ha
  have hm := List.length_pos_iff.mpr hb
  obtain ⟨hlow, hhigh⟩ := abs_le.mp hnear
  -- the corridor never jumps: it moves by one from each row to the next
  have hcorridor : Reachable (InCorridor (fun i => (i : ℤ) - band) fun i => (i : ℤ) + band)
      (a.length - 1, b.length - 1) := by
    refine (reachable_corridor_iff (fun i _ => ?_) (fun i _ => ⟨?_, ?_⟩) ⟨?_, ?_⟩).mpr
      ⟨?_, fun i _ => ?_⟩ <;> omega
  obtain ⟨path, hpath⟩ := hcorridor
  refine ⟨path, hpath.isPath, hpath.head, hpath.last, fun q hq => ?_⟩
  have hrow := (hpath.le_last q hq).1
  obtain ⟨hfrom, hto⟩ := hpath.allowed q hq
  dsimp only at hrow hfrom hto
  rw [inBand_iff, getD_diagonalCenter (by omega)]
  push_cast
  omega

/-! ## The first `banded_dtw` -/

variable [Field K] [LinearOrder K] [IsStrictOrderedRing K]

/-- **The coarse pass always succeeds after the crop.**  For any two nonempty sequences, any
distance of their frames and any band under the size guard, what the crop leaves are nonempty
prefixes, of lengths no further apart than the band, and `banded_dtw` around the diagonal
returns a path for them. -/
theorem coarsePass_succeeds (dist : α → α → K) (user reference : List α) (band : ℕ)
    (huser : user ≠ []) (hreference : reference ≠ [])
    (hguard : ((cropToOverlap user reference band).1.length + 1) * (2 * band + 1) ≤ dtwMaxCells) :
    (∃ path, bandedDtw dist (cropToOverlap user reference band).1
        (cropToOverlap user reference band).2.1 band none = .ok path) ∧
      (cropToOverlap user reference band).1 <+: user ∧
      (cropToOverlap user reference band).2.1 <+: reference ∧
      (cropToOverlap user reference band).1 ≠ [] ∧
      (cropToOverlap user reference band).2.1 ≠ [] ∧
      |((cropToOverlap user reference band).1.length : ℤ) -
        (cropToOverlap user reference band).2.1.length| ≤ band := by
  have hcrop := cropToOverlap_near huser hreference band
  refine ⟨?_, hcrop⟩
  obtain ⟨-, -, ha, hb, hnear⟩ := hcrop
  have hzero : (diagonalCenter (cropToOverlap user reference band).1.length).getD 0 0 = 0 :=
    getD_diagonalCenter (Nat.zero_le _)
  have hfeasible := exists_diagonal_inBandPath ha hb hnear
  -- the end of the table is reached along that path
  have hreached := mt (cellCost_eq_top_iff dist hzero ha hb).mp (not_not_intro hfeasible)
  obtain ⟨cost, hcost⟩ := WithTop.ne_top_iff_exists.mp hreached
  obtain ⟨path, hpath, -⟩ := (bandedDtw_eq dist _ band ha hb hguard).2 cost hcost.symm
  exact ⟨path, hpath⟩

/-- Three frames against seven, and a band of one. -/
theorem coarsePass_succeeds_threeFrames :
    ∃ path, bandedDtw (fun x y : ℚ => |x - y|) (cropToOverlap [1, 2, 3] [0, 5, 1, 1, 2, 2, 3] 1).1
      (cropToOverlap [1, 2, 3] [0, 5, 1, 1, 2, 2, 3] 1).2.1 1 none = .ok path :=
  (coarsePass_succeeds (fun x y : ℚ => |x - y|) [1, 2, 3] [0, 5, 1, 1, 2, 2, 3] 1 (by decide)
    (by decide) (by decide)).1

end VocalCoach
