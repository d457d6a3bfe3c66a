/-
# What the banded table holds

The table of `_banded_dtw_kernel` row by row: `cellFor` reads the cell of column `j`
through the row's offset, and `cellFor_succ` is the recurrence the loops compute for it,
whatever the offsets of the two rows are: in the band, the frame distance on top of the
cheapest of the three neighbours; outside it, nothing.

The loop over the columns is followed by `cellAt_fill`: the first `t` columns are filled
and the rest of the row is still empty.
-/
import VocalCoach.Dtw

namespace VocalCoach

section Cells

variable {K : Type*}

/-! ## Cells of a row -/

/-- The cell at `offset` of a row, empty outside the row. -/
def cellAt (row : List (Cell K)) (offset : ℤ) : Cell K :=
  if 0 ≤ offset then (row[offset.toNat]?).getD .empty else .empty

theorem costAt_eq (row : List (Cell K)) (offset : ℤ) :
    costAt row offset = (cellAt row offset).cost := by
  unfold costAt cellAt
  split_ifs <;> rfl

theorem cellAt_replicate (n : ℕ) (offset : ℤ) :
    cellAt (List.replicate n (Cell.empty : Cell K)) offset = .empty := by
  unfold cellAt
  split_ifs
  · rw [List.getElem?_replicate]
    split_ifs <;> rfl
  · rfl

theorem cellAt_set {row : List (Cell K)} {at_ : ℤ} (hlow : 0 ≤ at_) (hhigh : at_ < row.length)
    (cell : Cell K) (offset : ℤ) :
    cellAt (row.set at_.toNat cell) offset = if offset = at_ then cell else cellAt row offset := by
  unfold cellAt
  by_cases hoff : 0 ≤ offset
  · rw [if_pos hoff, if_pos hoff, List.getElem?_set]
    by_cases heq : offset = at_
    · subst heq
      rw [if_pos rfl, if_pos (by omega), if_pos rfl]
      rfl
    · rw [if_neg (by omega), if_neg heq]
  · rw [if_neg hoff, if_neg hoff, if_neg (by omega)]

end Cells

/-! ## One row -/

variable {α K : Type*} [Field K] [LinearOrder K]

section Row

variable (dist : α → α → K) (b : List α) (band : ℕ) (center centerPrev : ℤ)
  (previous : List (Cell K)) (frame : α)

/-- The row after the first `t` columns from `jLo` on. -/
def filled (jLo : ℤ) (t : ℕ) : List (Cell K) :=
  ((List.range t).map fun s : ℕ => jLo + (s : ℤ)).foldl
    (fillColumn dist b band center centerPrev previous frame)
    (List.replicate (2 * band + 1) .empty)

theorem filled_succ (jLo : ℤ) (t : ℕ) :
    filled dist b band center centerPrev previous frame jLo (t + 1) =
      fillColumn dist b band center centerPrev previous frame
        (filled dist b band center centerPrev previous frame jLo t) (jLo + t) := by
  simp [filled, List.range_succ]

/-- What the loop body writes for column `j`, over a row it has filled so far. -/
def columnCell (row : List (Cell K)) (other : α) (j : ℤ) : Cell K :=
  let best := bestPredecessor (costAt previous (j - 1 - (centerPrev - band)))
    (costAt previous (j - (centerPrev - band))) (costAt row (j - 1 - (center - band)))
  ⟨(dist frame other : WithTop K) + best.cost, best.direction⟩

variable {dist b band center centerPrev previous frame}

theorem length_fillColumn (row : List (Cell K)) (j : ℤ) :
    (fillColumn dist b band center centerPrev previous frame row j).length = row.length := by
  unfold fillColumn
  cases b[(j - 1).toNat]? <;> simp

theorem length_filled (jLo : ℤ) (t : ℕ) :
    (filled dist b band center centerPrev previous frame jLo t).length = 2 * band + 1 := by
  induction t with
  | zero => simp [filled]
  | succ t ih => rw [filled_succ, length_fillColumn, ih]

/-- The loop body writes the cell of its column and no other. -/
theorem cellAt_fillColumn {row : List (Cell K)} {j : ℤ} {other : α}
    (hother : b[(j - 1).toNat]? = some other) (hlow : center - band ≤ j)
    (hhigh : j ≤ center + band) (hlength : row.length = 2 * band + 1) (offset : ℤ) :
    cellAt (fillColumn dist b band center centerPrev previous frame row j) offset =
      if offset = j - (center - band) then
        columnCell dist band center centerPrev previous frame row other j
      else cellAt row offset := by
  unfold fillColumn
  rw [hother]
  dsimp only
  rw [cellAt_set (by omega) (by omega)]
  have hleft : j - (center - band) - 1 = j - 1 - (center - band) := by omega
  rw [hleft]
  rfl

/-- Where the left neighbour costs the same, so does the cell. -/
theorem columnCell_congr {row row' : List (Cell K)} {other : α} {j : ℤ}
    (h : cellAt row (j - 1 - (center - band)) = cellAt row' (j - 1 - (center - band))) :
    columnCell dist band center centerPrev previous frame row other j =
      columnCell dist band center centerPrev previous frame row' other j := by
  unfold columnCell
  rw [costAt_eq row, costAt_eq row', h]

/-- **The loop over the columns**: those seen hold what the loop body wrote over the row as
it is now, the others nothing. -/
theorem cellAt_filled {jLo : ℤ} (hone : 1 ≤ jLo) (hlow : center - band ≤ jLo) (t : ℕ)
    (hhigh : 0 < t → jLo + t ≤ center + band + 1) (hlength : 0 < t → jLo + t ≤ b.length + 1)
    (j : ℤ) :
    (¬ (jLo ≤ j ∧ j < jLo + t) →
      cellAt (filled dist b band center centerPrev previous frame jLo t)
        (j - (center - band)) = .empty) ∧
    (jLo ≤ j → j < jLo + t → ∀ other, b[(j - 1).toNat]? = some other →
      cellAt (filled dist b band center centerPrev previous frame jLo t) (j - (center - band)) =
        columnCell dist band center centerPrev previous frame
          (filled dist b band center centerPrev previous frame jLo t) other j) := by
  induction t generalizing j with
  | zero =>
    refine ⟨fun _ => ?_, fun hle hlt => ?_⟩
    · simp only [filled, List.range_zero, List.map_nil, List.foldl_nil]
      exact cellAt_replicate _ _
    · push_cast at hlt
      omega
  | succ t ih =>
    have hhigh := hhigh (Nat.succ_pos t)
    have hlength := hlength (Nat.succ_pos t)
    push_cast at hhigh hlength
    have ih := ih (fun _ => by omega) (fun _ => by omega)
    -- the column written now
    have hin : (jLo + t - 1).toNat < b.length := by omega
    have hlast := List.getElem?_eq_getElem hin
    have hlow' : center - band ≤ jLo + t := by omega
    have hhigh' : jLo + t ≤ center + band := by omega
    rw [filled_succ]
    refine ⟨fun hout => ?_, fun hle hlt other hother => ?_⟩
    · push_cast at hout
      rw [cellAt_fillColumn hlast hlow' hhigh' (length_filled jLo t), if_neg (by omega)]
      exact (ih j).1 (by omega)
    · push_cast at hlt
      -- the left neighbour was written before, or never is
      have hleft : columnCell dist band center centerPrev previous frame
          (fillColumn dist b band center centerPrev previous frame
            (filled dist b band center centerPrev previous frame jLo t) (jLo + t)) other j =
          columnCell dist band center centerPrev previous frame
            (filled dist b band center centerPrev previous frame jLo t) other j := by
        refine columnCell_congr ?_
        rw [cellAt_fillColumn hlast hlow' hhigh' (length_filled jLo t), if_neg (by omega)]
      rw [hleft, cellAt_fillColumn hlast hlow' hhigh' (length_filled jLo t)]
      by_cases heq : j = jLo + t
      · rw [if_pos (by omega)]
        subst heq
        rw [Option.some.inj (hlast.symm.trans hother)]
      · rw [if_neg (by omega)]
        exact (ih j).2 hle (by omega) other hother

end Row

/-! ## The whole table -/

variable {dist : α → α → K} {a b : List α} {fullCenter : List ℤ} {band : ℕ}

/-- The cell of column `j` in row `i`. -/
def cellFor (dist : α → α → K) (a b : List α) (fullCenter : List ℤ) (band i j : ℕ) : Cell K :=
  cellAt (tableRow dist a b fullCenter band i) (j - (fullCenter.getD i 0 - band))

/-- The column is in the band of the row. -/
def InBand (fullCenter : List ℤ) (band i j : ℕ) : Prop := |(j : ℤ) - fullCenter.getD i 0| ≤ band

theorem inBand_iff {i j : ℕ} : InBand fullCenter band i j ↔
    fullCenter.getD i 0 - band ≤ j ∧ (j : ℤ) ≤ fullCenter.getD i 0 + band := by
  unfold InBand
  rw [abs_le]
  omega

theorem directionAt_eq (i j : ℕ) :
    directionAt dist a b fullCenter band i j = (cellFor dist a b fullCenter band i j).direction := by
  unfold directionAt cellFor cellAt
  dsimp only
  split_ifs <;> rfl

/-- Row `0` holds its first column. -/
theorem cellFor_zero_zero (h : fullCenter.getD 0 0 = 0) :
    cellFor dist a b fullCenter band 0 0 = ⟨0, .unreached⟩ := by
  unfold cellFor tableRow firstRow
  rw [h]
  dsimp only
  rw [if_pos (by omega), cellAt_set (by omega) (by simp; omega), if_pos (by simp)]

theorem cellFor_zero_succ (h : fullCenter.getD 0 0 = 0) (j : ℕ) :
    cellFor dist a b fullCenter band 0 (j + 1) = .empty := by
  unfold cellFor tableRow firstRow
  rw [h]
  dsimp only
  rw [if_pos (by omega), cellAt_set (by omega) (by simp; omega), if_neg (by push_cast; omega)]
  exact cellAt_replicate _ _

/-- A row of the table is a filled one. -/
theorem tableRow_succ {i : ℕ} {frame : α} (h : a[i]? = some frame) :
    tableRow dist a b fullCenter band (i + 1) =
      filled dist b band (fullCenter.getD (i + 1) 0) (fullCenter.getD i 0)
        (tableRow dist a b fullCenter band i) frame (max 1 (fullCenter.getD (i + 1) 0 - band))
        (min (b.length : ℤ) (fullCenter.getD (i + 1) 0 + band) + 1 -
          max 1 (fullCenter.getD (i + 1) 0 - band)).toNat := by
  rw [tableRow, h]
  rfl

/-- The cells of a row: what the loop body writes over the row in the columns of the band,
nothing elsewhere. -/
theorem cellAt_tableRow {i : ℕ} {frame : α} (h : a[i]? = some frame) (j : ℤ) :
    (¬ (1 ≤ j ∧ j ≤ b.length ∧ fullCenter.getD (i + 1) 0 - band ≤ j ∧
        j ≤ fullCenter.getD (i + 1) 0 + band) →
      cellAt (tableRow dist a b fullCenter band (i + 1))
        (j - (fullCenter.getD (i + 1) 0 - band)) = .empty) ∧
    (1 ≤ j → fullCenter.getD (i + 1) 0 - band ≤ j → j ≤ fullCenter.getD (i + 1) 0 + band →
      ∀ other, b[(j - 1).toNat]? = some other →
      cellAt (tableRow dist a b fullCenter band (i + 1))
        (j - (fullCenter.getD (i + 1) 0 - band)) =
      columnCell dist band (fullCenter.getD (i + 1) 0) (fullCenter.getD i 0)
        (tableRow dist a b fullCenter band i) frame
        (tableRow dist a b fullCenter band (i + 1)) other j) := by
  rw [tableRow_succ h]
  generalize fullCenter.getD (i + 1) 0 = center
  have hone : 1 ≤ max 1 (center - band) := le_max_left _ _
  have hlow : center - band ≤ max 1 (center - band) := le_max_right _ _
  have hhigh : min (b.length : ℤ) (center + band) ≤ center + band := min_le_right _ _
  have hlength : min (b.length : ℤ) (center + band) ≤ b.length := min_le_left _ _
  refine ⟨fun hout => (cellAt_filled hone hlow _ (fun _ => ?_) (fun _ => ?_) j).1 ?_,
    fun h1 h2 h3 other hother =>
      (cellAt_filled hone hlow _ (fun _ => ?_) (fun _ => ?_) j).2 ?_ ?_ other hother⟩
  · omega
  · omega
  · intro hin
    apply hout
    omega
  · omega
  · omega
  · exact max_le h1 h2
  · have hj : j ≤ b.length := by
      have hlt := (List.getElem?_eq_some_iff.mp hother).1
      omega
    omega

theorem cellFor_succ_zero (i : ℕ) : cellFor dist a b fullCenter band (i + 1) 0 = .empty := by
  unfold cellFor
  cases h : a[i]? with
  | none =>
    rw [tableRow, h]
    exact cellAt_replicate _ _
  | some frame =>
    refine (cellAt_tableRow h ((0 : ℕ) : ℤ)).1 fun hin => ?_
    exact absurd hin.1 (by simp)

/-- **The recurrence**, wherever the bands of the two rows are. -/
theorem cellFor_succ_succ {i j : ℕ} {frame other : α} (hframe : a[i]? = some frame)
    (hother : b[j]? = some other) (hband : InBand fullCenter band (i + 1) (j + 1)) :
    cellFor dist a b fullCenter band (i + 1) (j + 1) =
      let best := bestPredecessor (cellFor dist a b fullCenter band i j).cost
        (cellFor dist a b fullCenter band i (j + 1)).cost
        (cellFor dist a b fullCenter band (i + 1) j).cost
      ⟨(dist frame other : WithTop K) + best.cost, best.direction⟩ := by
  obtain ⟨hlow, hhigh⟩ := inBand_iff.mp hband
  have hcolumn : (((j + 1 : ℕ) : ℤ) - 1).toNat = j := by omega
  unfold cellFor
  rw [(cellAt_tableRow hframe ((j + 1 : ℕ) : ℤ)).2 (by omega) hlow hhigh other
    (by rw [hcolumn]; exact hother)]
  unfold columnCell
  rw [costAt_eq, costAt_eq, costAt_eq]
  have hj : ((j + 1 : ℕ) : ℤ) - 1 = j := by omega
  rw [hj]

/-- Nothing is written outside the band or past the end of either sequence. -/
theorem cellFor_eq_empty {i j : ℕ}
    (h : ¬ (i < a.length ∧ j < b.length ∧ InBand fullCenter band (i + 1) (j + 1))) :
    cellFor dist a b fullCenter band (i + 1) (j + 1) = .empty := by
  cases hframe : a[i]? with
  | none =>
    unfold cellFor
    rw [tableRow, hframe]
    exact cellAt_replicate _ _
  | some frame =>
    refine (cellAt_tableRow hframe _).1 fun hin => h ⟨?_, by omega, inBand_iff.mpr hin.2.2⟩
    exact (List.getElem?_eq_some_iff.mp hframe).1

end VocalCoach
