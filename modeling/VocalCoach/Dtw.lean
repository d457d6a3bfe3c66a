/-
# Two-level banded DTW

Models `dsp/dtw.py`: the banded kernel and its backtrack, the start-offset scan and
the projection of a coarse path onto a finer hop.  Costs live in a linearly ordered
field `K` with `⊤` for `np.inf`; `dist` is the Euclidean distance of two (embedded)
frames, the kernel's innermost loop.

The banded table is stored as in the source, one row of `2 * band + 1` cells per frame
of the first sequence, shifted by `full_center[i] - band`; every lookup goes through an
offset that may fall outside the row.

`isPath_backtrack` is the shape of every path returned: consecutive pairs differ by a
unit step, whatever the table holds.
-/
import VocalCoach.TimeMap
import VocalCoach.Errors
import VocalCoach.Floats
import Mathlib.Algebra.Order.Monoid.WithTop

namespace VocalCoach

open Interpolation LatticePath

/-! ## Failures -/

/-- What the alignment code raises, with the values its messages print. -/
inductive AlignError (K : Type*)
  | emptySequence
  | tooLarge (cells band n : ℕ)
  | unreachable (m n band : ℕ)
  | noWarpingPath
  | overCeiling (distance : K)
  | noVoice (fraction : ℚ)
  deriving DecidableEq, Repr

/-- The class each failure is raised as. -/
def AlignError.errorClass {K : Type*} : AlignError K → ErrorClass
  | .tooLarge .. => .alignmentTooLarge
  | .noVoice _ => .noVoiceDetected
  | _ => .alignmentFailed

/-- `WarpingPath`. -/
structure WarpingPath (K : Type*) where
  index1 : List ℕ
  index2 : List ℕ
  normalizedDistance : K
  deriving DecidableEq, Repr

/-- The pairs `(index1[k], index2[k])`. -/
def WarpingPath.pairs {K : Type*} (path : WarpingPath K) : List (ℕ × ℕ) :=
  path.index1.zip path.index2

section Kernel

variable {α K : Type*} [Field K] [LinearOrder K]

/-- A predecessor direction: the `0`, `1`, `2` and `-1` of the table `P`. -/
inductive Direction
  | diagonal
  | up
  | left
  | unreached
  deriving DecidableEq, Repr

/-- One cell of `D` with the cell of `P` at the same place. -/
structure Cell (K : Type*) where
  cost : WithTop K
  direction : Direction

/-- A cell as `np.full` leaves it. -/
def Cell.empty : Cell K := ⟨⊤, .unreached⟩

/-- The cost at `offset` of a row, infinite outside the row
(`0 <= off < width and D[...] < best` never holds there). -/
def costAt (row : List (Cell K)) (offset : ℤ) : WithTop K :=
  if 0 ≤ offset then ((row[offset.toNat]?).getD .empty).cost else ⊤

/-- The three comparisons of the inner loop, in the source's order: a later
predecessor wins only when strictly cheaper. -/
def bestPredecessor (diagonal up left : WithTop K) : Cell K :=
  let best : Cell K := .empty
  let best := if diagonal < best.cost then ⟨diagonal, .diagonal⟩ else best
  let best := if up < best.cost then ⟨up, .up⟩ else best
  if left < best.cost then ⟨left, .left⟩ else best

/-- One iteration of the loop over `j`: fill column `j` of the current row. -/
def fillColumn (dist : α → α → K) (b : List α) (band : ℕ) (center centerPrev : ℤ)
    (previous : List (Cell K)) (frame : α) (row : List (Cell K)) (j : ℤ) : List (Cell K) :=
  let baseCur := center - band
  let basePrev := centerPrev - band
  let offset := j - baseCur
  match b[(j - 1).toNat]? with
  | none => row
  | some other =>
      let best := bestPredecessor (costAt previous (j - 1 - basePrev))
        (costAt previous (j - basePrev)) (costAt row (offset - 1))
      row.set offset.toNat ⟨(dist frame other : WithTop K) + best.cost, best.direction⟩

/-- `range(j_lo, j_hi + 1)`. -/
def columns (jLo jHi : ℤ) : List ℤ :=
  (List.range (jHi + 1 - jLo).toNat).map fun t : ℕ => jLo + (t : ℤ)

/-- Row `0`: only the column `0` is reached, if it lies in the band at all. -/
def firstRow (band : ℕ) (center : ℤ) : List (Cell K) :=
  let blank := List.replicate (2 * band + 1) Cell.empty
  let off0 := 0 - (center - band)
  if 0 ≤ off0 then blank.set off0.toNat ⟨0, .unreached⟩ else blank

/-- Row `i` of the table `_banded_dtw_kernel` fills. -/
def tableRow (dist : α → α → K) (a b : List α) (fullCenter : List ℤ) (band : ℕ) :
    ℕ → List (Cell K)
  | 0 => firstRow band (fullCenter.getD 0 0)
  | i + 1 =>
      let center := fullCenter.getD (i + 1) 0
      let blank := List.replicate (2 * band + 1) Cell.empty
      match a[i]? with
      | none => blank
      | some frame =>
          (columns (max 1 (center - band)) (min b.length (center + band))).foldl
            (fillColumn dist b band center (fullCenter.getD i 0)
              (tableRow dist a b fullCenter band i) frame) blank

/-- The predecessor recorded for column `j` of row `i`. -/
def directionAt (dist : α → α → K) (a b : List α) (fullCenter : List ℤ) (band i j : ℕ) :
    Direction :=
  let offset : ℤ := j - (fullCenter.getD i 0 - band)
  if 0 ≤ offset then
    (((tableRow dist a b fullCenter band i)[offset.toNat]?).getD .empty).direction
  else .unreached

/-! ## Backtracking -/

/-- `_backtrack`, with the pairs collected back to front.  `fuel` bounds the number of
iterations; each one lowers `i + j`. -/
def backtrackFrom (direction : ℕ → ℕ → Direction) :
    ℕ → ℕ → ℕ → List (ℕ × ℕ) → List (ℕ × ℕ)
  | 0, _, _, pairs => pairs
  | fuel + 1, i, j, pairs =>
      if 0 < i ∧ 0 < j then
        let pairs := (i - 1, j - 1) :: pairs
        match direction i j with
        | .diagonal => backtrackFrom direction fuel (i - 1) (j - 1) pairs
        | .up => backtrackFrom direction fuel (i - 1) j pairs
        | _ => backtrackFrom direction fuel i (j - 1) pairs
      else pairs

/-- `_backtrack` from `(n, m)`. -/
def backtrack (direction : ℕ → ℕ → Direction) (n m : ℕ) : List (ℕ × ℕ) :=
  backtrackFrom direction (n + m) n m []

/-- Once `fuel` covers `i + j`, more of it changes nothing: the loop has ended. -/
theorem backtrackFrom_fuel (direction : ℕ → ℕ → Direction) (fuel i j : ℕ)
    (pairs : List (ℕ × ℕ)) (h : i + j ≤ fuel) :
    backtrackFrom direction (fuel + 1) i j pairs = backtrackFrom direction fuel i j pairs := by
  induction fuel generalizing i j pairs with
  | zero =>
    have hi : i = 0 := by omega
    simp [backtrackFrom, hi]
  | succ fuel ih =>
    rw [backtrackFrom, backtrackFrom]
    split
    next hpos =>
      cases direction i j <;> exact ih _ _ _ (by omega)
    next => rfl

/-- Pairs collected in front of a path that starts one step further on form a path. -/
theorem isPath_backtrackFrom (direction : ℕ → ℕ → Direction) (fuel i j : ℕ)
    (pairs : List (ℕ × ℕ)) (hpairs : IsPath pairs)
    (hhead : 0 < i → 0 < j → ∀ q ∈ pairs.head?, UnitStep (i - 1, j - 1) q) :
    IsPath (backtrackFrom direction fuel i j pairs) := by
  induction fuel generalizing i j pairs with
  | zero => exact hpairs
  | succ fuel ih =>
    rw [backtrackFrom]
    split
    next hpos =>
      obtain ⟨hi, hj⟩ := hpos
      have hcons : IsPath ((i - 1, j - 1) :: pairs) := by
        cases pairs with
        | nil => exact List.isChain_singleton _
        | cons q pairs => exact isPath_cons_cons.mpr ⟨hhead hi hj q rfl, hpairs⟩
      -- the pair just collected is one step past whichever cell comes next
      cases direction i j with
      | diagonal =>
        refine ih _ _ _ hcons fun hi' hj' q hq => Or.inl ?_
        obtain rfl : (i - 1, j - 1) = q := by simpa using hq
        simp only [Prod.mk.injEq]
        omega
      | up =>
        refine ih _ _ _ hcons fun hi' hj' q hq => Or.inr (Or.inl ?_)
        obtain rfl : (i - 1, j - 1) = q := by simpa using hq
        simp only [Prod.mk.injEq, and_true]
        omega
      | left | unreached =>
        refine ih _ _ _ hcons fun hi' hj' q hq => Or.inr (Or.inr ?_)
        obtain rfl : (i - 1, j - 1) = q := by simpa using hq
        simp only [Prod.mk.injEq, true_and]
        omega
    next => exact hpairs

/-- **Every backtracked path is a lattice path.** -/
theorem isPath_backtrack (direction : ℕ → ℕ → Direction) (n m : ℕ) :
    IsPath (backtrack direction n m) :=
  isPath_backtrackFrom direction (n + m) n m [] List.isChain_nil (by simp)

/-! ## `banded_dtw` -/

/-- `np.arange(n + 1)`, the band around the literal diagonal. -/
def diagonalCenter (n : ℕ) : List ℤ := (List.range (n + 1)).map fun i : ℕ => (i : ℤ)

/-- `banded_dtw`; `fullCenter = none` is the default argument. -/
def bandedDtw (dist : α → α → K) (a b : List α) (band : ℕ)
    (fullCenter : Option (List ℤ)) : Except (AlignError K) (WarpingPath K) :=
  let n := a.length
  let m := b.length
  let cells := (n + 1) * (2 * band + 1)
  let center := fullCenter.getD (diagonalCenter n)
  let finalOffset : ℤ := m - (center.getD n 0 - band)
  if n = 0 ∨ m = 0 then .error .emptySequence
  else if dtwMaxCells < cells then .error (.tooLarge cells band n)
  else if ¬ (0 ≤ finalOffset ∧ finalOffset < 2 * band + 1) then .error (.unreachable m n band)
  else match costAt (tableRow dist a b center band n) finalOffset with
    | ⊤ => .error .noWarpingPath
    | (finalCost : K) =>
        let pairs := backtrack (directionAt dist a b center band) n m
        .ok ⟨pairs.map Prod.fst, pairs.map Prod.snd, finalCost / pairs.length⟩

/-- **What `banded_dtw` returns** is a backtrack of its own table. -/
theorem bandedDtw_ok {dist : α → α → K} {a b : List α} {band : ℕ}
    {fullCenter : Option (List ℤ)} {path : WarpingPath K}
    (h : bandedDtw dist a b band fullCenter = .ok path) :
    ∃ pairs, pairs = backtrack (directionAt dist a b (fullCenter.getD (diagonalCenter a.length))
        band) a.length b.length ∧
      path.index1 = pairs.map Prod.fst ∧ path.index2 = pairs.map Prod.snd := by
  unfold bandedDtw at h
  dsimp only at h
  split_ifs at h
  split at h
  · cases h
  · cases h
    exact ⟨_, rfl, rfl, rfl⟩

/-- The pairs of a returned path form a lattice path. -/
theorem isPath_of_bandedDtw {dist : α → α → K} {a b : List α} {band : ℕ}
    {fullCenter : Option (List ℤ)} {path : WarpingPath K}
    (h : bandedDtw dist a b band fullCenter = .ok path) : IsPath path.pairs := by
  obtain ⟨pairs, hpairs, h1, h2⟩ := bandedDtw_ok h
  rw [WarpingPath.pairs, h1, h2, List.zip_map', hpairs]
  simpa using isPath_backtrack _ _ _

/-! ## The start-offset scan -/

/-- `scores[k]`: the mean unwarped distance of `user` from `reference[k:]`. -/
def startOffsetScore (dist : α → α → K) (user reference : List α) (k : ℕ) : WithTop K :=
  let costs := (user.zip (reference.drop k)).map fun pair => dist pair.1 pair.2
  if costs.length = 0 then ⊤ else ((costs.sum / costs.length : K) : WithTop K)

/-- `locate_start_offset_scores`. -/
def locateStartOffsetScores (dist : α → α → K) (user reference : List α) (maxOffset : ℤ) :
    List (WithTop K) :=
  if maxOffset < 0 then []
  else (List.range (maxOffset.toNat + 1)).map (startOffsetScore dist user reference)

end Kernel

/-! ## Projecting a coarse path onto a finer hop -/

/-- `np.clip`. -/
def clip (x lo hi : ℤ) : ℤ := min (max x lo) hi

/-- `TimeMap.from_warping_path`, with `time` for the rounding of a frame's time. -/
def TimeMap.fromWarpingPathBy (time : ℚ → ℚ) (index1 index2 : List ℕ) (hopSeconds : ℚ) :
    TimeMap where
  userTimes := index1.map fun i : ℕ => time (i * hopSeconds)
  referenceTimes := index2.map fun j : ℕ => time (j * hopSeconds)

/-- `refine_center`, with `time` for the rounding of a frame's time and `round` for `np.round`.
What `np.interp` adds to the error of the times is far below the half frame it is rounded by. -/
def refineCenterBy {K : Type*} (time : ℚ → ℚ) (round : ℚ → ℤ) (coarse : WarpingPath K)
    (coarseHopSeconds fineHopSeconds : ℚ) (nFine mFine : ℕ) : List ℤ :=
  let timeMap := TimeMap.fromWarpingPathBy time coarse.index1 coarse.index2 coarseHopSeconds
  let rawCenter := (List.range nFine).map fun i : ℕ =>
    clip (round (timeMap.userToReference (time (i * fineHopSeconds)) / fineHopSeconds)) 0 mFine
  let fullCenter : List ℤ := 0 :: rawCenter
  let endGap : ℤ := mFine - fullCenter.getD nFine 0
  let fullCenter :=
    if endGap ≠ 0 ∧ 0 < nFine then
      (fullCenter.mapIdx fun i c => c + round (endGap * i / nFine)).set nFine mFine
    else fullCenter
  fullCenter.mapIdx fun i c => if i = 0 then c else clip c 0 mFine

/-- `refine_center`: times are doubles, and which knots `np.interp` reads between depends on
how they were rounded. -/
def refineCenter {K : Type*} (coarse : WarpingPath K) (coarseHopSeconds fineHopSeconds : ℚ)
    (nFine mFine : ℕ) : List ℤ :=
  refineCenterBy nearestDouble roundHalfEven coarse coarseHopSeconds fineHopSeconds nFine mFine

end VocalCoach
