/-
# Banded DTW finds a cheapest path

For any frame distance and any centers that start at `0`, `banded_dtw` fails if and only
if no warping path stays in the band, and otherwise returns one of least summed distance
(`bandedDtw_optimal`).

* The table relaxes every step between cells of the band (`cellCost_le`), so its costs are
  lower bounds (`LatticePath.le_weight`).
* The recorded direction of a finite cell leads to a finite cell whose cost it was
  computed from (`Follows`), down to the first pair; so the backtrack stays on recorded
  cells of the band (`backtrackFrom_follows`) and its pairs weigh what the table says
  (`LatticePath.eq_weight`).
-/
import VocalCoach.DtwTable
import VocalCoach.LatticeCosts

namespace VocalCoach

open LatticePath

/-! ## The cheapest predecessor -/

section Predecessor

variable {K : Type*} [LinearOrder K] {diagonal up left : WithTop K}

/-- One of the three comparisons. -/
def relax (best : Cell K) (cost : WithTop K) (direction : Direction) : Cell K :=
  if cost < best.cost then ⟨cost, direction⟩ else best

theorem bestPredecessor_eq : bestPredecessor diagonal up left =
    relax (relax (relax .empty diagonal .diagonal) up .up) left .left := rfl

theorem relax_cost (best : Cell K) (cost : WithTop K) (direction : Direction) :
    (relax best cost direction).cost = min best.cost cost := by
  unfold relax
  split_ifs with hlt
  · exact (min_eq_right hlt.le).symm
  · exact (min_eq_left (not_lt.mp hlt)).symm

theorem relax_eq (best : Cell K) (cost : WithTop K) (direction : Direction) :
    relax best cost direction = ⟨cost, direction⟩ ∨ relax best cost direction = best := by
  unfold relax
  split_ifs
  · exact Or.inl rfl
  · exact Or.inr rfl

theorem bestPredecessor_cost :
    (bestPredecessor diagonal up left).cost = min (min diagonal up) left := by
  rw [bestPredecessor_eq, relax_cost, relax_cost, relax_cost, Cell.empty, top_inf_eq]

/-- What the recorded direction says about the recorded cost. -/
def Cell.Records (diagonal up left : WithTop K) (cell : Cell K) : Prop :=
  match cell.direction with
  | .diagonal => cell.cost = diagonal
  | .up => cell.cost = up
  | .left => cell.cost = left
  | .unreached => cell.cost = ⊤

/-- **The direction names a neighbour of the recorded cost.** -/
theorem bestPredecessor_records (diagonal up left : WithTop K) :
    (bestPredecessor diagonal up left).Records diagonal up left := by
  rw [bestPredecessor_eq]
  rcases relax_eq (relax (relax .empty diagonal .diagonal) up .up) left .left with h | h <;> rw [h]
  · exact rfl
  rcases relax_eq (relax .empty diagonal .diagonal) up .up with h | h <;> rw [h]
  · exact rfl
  rcases relax_eq (.empty : Cell K) diagonal .diagonal with h | h <;> rw [h] <;> exact rfl

end Predecessor

/-! ## The costs of the cells -/

section Table

variable {α K : Type*} [Field K] [LinearOrder K] {dist : α → α → K} {a b : List α}
  {fullCenter : List ℤ} {band : ℕ}

/-- The distance of a pair of frames. -/
def frameCost (dist : α → α → K) (a b : List α) (p : ℕ × ℕ) : K :=
  match a[p.1]?, b[p.2]? with
  | some frame, some other => dist frame other
  | _, _ => 0

/-- The pair of frames is one of the table, and in the band. -/
def InTable (a b : List α) (fullCenter : List ℤ) (band : ℕ) (p : ℕ × ℕ) : Prop :=
  p.1 < a.length ∧ p.2 < b.length ∧ InBand fullCenter band (p.1 + 1) (p.2 + 1)

/-- What the table says about a pair of frames. -/
def cellCost (dist : α → α → K) (a b : List α) (fullCenter : List ℤ) (band : ℕ) (p : ℕ × ℕ) :
    WithTop K :=
  (cellFor dist a b fullCenter band (p.1 + 1) (p.2 + 1)).cost

/-- The recurrence for a pair of frames. -/
theorem cellFor_inTable {p : ℕ × ℕ} (h : InTable a b fullCenter band p) :
    cellFor dist a b fullCenter band (p.1 + 1) (p.2 + 1) =
      let best := bestPredecessor (cellFor dist a b fullCenter band p.1 p.2).cost
        (cellFor dist a b fullCenter band p.1 (p.2 + 1)).cost
        (cellFor dist a b fullCenter band (p.1 + 1) p.2).cost
      ⟨((frameCost dist a b p : K) : WithTop K) + best.cost, best.direction⟩ := by
  obtain ⟨hi, hj, hband⟩ := h
  rw [cellFor_succ_succ (List.getElem?_eq_getElem hi) (List.getElem?_eq_getElem hj) hband]
  simp only [frameCost, List.getElem?_eq_getElem hi, List.getElem?_eq_getElem hj]

/-- Only pairs in the band are reached. -/
theorem inTable_of_cellCost {p : ℕ × ℕ} (h : cellCost dist a b fullCenter band p ≠ ⊤) :
    InTable a b fullCenter band p := by
  by_contra hout
  apply h
  rw [cellCost, cellFor_eq_empty hout]
  rfl

/-! ## Following the recorded directions -/

/-- The cell the direction recorded for a pair of frames leads to. -/
def predecessor (direction : ℕ → ℕ → Direction) (p : ℕ × ℕ) : Option (ℕ × ℕ) :=
  match direction (p.1 + 1) (p.2 + 1) with
  | .diagonal => some (p.1, p.2)
  | .up => some (p.1, p.2 + 1)
  | .left => some (p.1 + 1, p.2)
  | .unreached => none

/-- The direction recorded for `p` leads to `q`. -/
def Follows (direction : ℕ → ℕ → Direction) (q p : ℕ × ℕ) : Prop :=
  predecessor direction p = some (q.1 + 1, q.2 + 1)

theorem predecessor_isSome_iff {direction : ℕ → ℕ → Direction} {p : ℕ × ℕ} :
    (predecessor direction p).isSome ↔ direction (p.1 + 1) (p.2 + 1) ≠ .unreached := by
  unfold predecessor
  cases direction (p.1 + 1) (p.2 + 1) <;> simp

/-- The cell before the first row and column is that of the first pair only. -/
theorem eq_zero_of_predecessor {direction : ℕ → ℕ → Direction} {p : ℕ × ℕ}
    (h : predecessor direction p = some (0, 0)) : p = (0, 0) := by
  obtain ⟨i, j⟩ := p
  unfold predecessor at h
  split at h <;> cases h
  rfl

/-- On a followed list every pair has a recorded direction, if the first has. -/
theorem isSome_of_isChain {direction : ℕ → ℕ → Direction} {pairs : List (ℕ × ℕ)}
    (hchain : pairs.IsChain (Follows direction))
    (hhead : ∀ q ∈ pairs.head?, (predecessor direction q).isSome) :
    ∀ p ∈ pairs, (predecessor direction p).isSome := by
  induction pairs with
  | nil => simp
  | cons q rest ih =>
    intro p hp
    rcases List.mem_cons.mp hp with rfl | hp
    · exact hhead p rfl
    · refine ih hchain.tail (fun r hr => ?_) p hp
      cases rest with
      | nil => cases hr
      | cons r' rest =>
        obtain rfl : r' = r := by simpa using hr
        rw [show predecessor direction r' = _ from (List.isChain_cons_cons.mp hchain).1]
        rfl

theorem Follows.unitStep {direction : ℕ → ℕ → Direction} {q p : ℕ × ℕ}
    (h : Follows direction q p) : UnitStep q p := by
  obtain ⟨i, j⟩ := p
  obtain ⟨i', j'⟩ := q
  unfold Follows predecessor at h
  unfold UnitStep
  split at h <;> simp only [Option.some.injEq, Prod.mk.injEq, reduceCtorEq] at h ⊢ <;> omega

/-- The loop of `_backtrack` moves to the predecessor of the pair it collects. -/
theorem backtrackFrom_succ {direction : ℕ → ℕ → Direction} {i j : ℕ} (hi : 0 < i) (hj : 0 < j)
    {c : ℕ × ℕ} (hc : predecessor direction (i - 1, j - 1) = some c) (fuel : ℕ)
    (pairs : List (ℕ × ℕ)) :
    backtrackFrom direction (fuel + 1) i j pairs =
        backtrackFrom direction fuel c.1 c.2 ((i - 1, j - 1) :: pairs) ∧
      c.1 + c.2 < i + j := by
  rw [predecessor, Nat.sub_add_cancel hi, Nat.sub_add_cancel hj] at hc
  rw [backtrackFrom, if_pos ⟨hi, hj⟩]
  split at hc <;> cases hc <;> rename_i hdirection <;> rw [hdirection]
  · exact ⟨rfl, by dsimp only; omega⟩
  · exact ⟨rfl, by dsimp only; omega⟩
  · exact ⟨rfl, by dsimp only; omega⟩

variable (dist) in
/-- **What the direction of a pair of frames says about its cost.** -/
theorem cellCost_records {p : ℕ × ℕ} (h : InTable a b fullCenter band p) :
    cellCost dist a b fullCenter band p =
      (predecessor (directionAt dist a b fullCenter band) p).elim ⊤ fun c =>
        ((frameCost dist a b p : K) : WithTop K) +
          (cellFor dist a b fullCenter band c.1 c.2).cost := by
  rw [predecessor, directionAt_eq, cellCost, cellFor_inTable h]
  generalize hdiagonal : (cellFor dist a b fullCenter band p.1 p.2).cost = diagonal
  generalize hup : (cellFor dist a b fullCenter band p.1 (p.2 + 1)).cost = up
  generalize hleft : (cellFor dist a b fullCenter band (p.1 + 1) p.2).cost = left
  have hrecords := bestPredecessor_records diagonal up left
  generalize bestPredecessor diagonal up left = best at hrecords
  dsimp only
  unfold Cell.Records at hrecords
  cases hdirection : best.direction <;> rw [hdirection] at hrecords <;> rw [hrecords]
  · rw [Option.elim_some, hdiagonal]
  · rw [Option.elim_some, hup]
  · rw [Option.elim_some, hleft]
  · exact WithTop.add_top _

/-- A reached pair of frames has a predecessor, which is reached too. -/
theorem exists_predecessor {p : ℕ × ℕ} (h : cellCost dist a b fullCenter band p ≠ ⊤) :
    ∃ c, predecessor (directionAt dist a b fullCenter band) p = some c ∧
      (cellFor dist a b fullCenter band c.1 c.2).cost ≠ ⊤ := by
  have hrecords := cellCost_records dist (inTable_of_cellCost h)
  cases hpred : predecessor (directionAt dist a b fullCenter band) p with
  | none =>
    rw [hpred] at hrecords
    exact absurd hrecords h
  | some c =>
    refine ⟨c, rfl, fun htop => h ?_⟩
    rw [hrecords, hpred, Option.elim_some, htop, WithTop.add_top]

/-- **A followed direction is tight.** -/
theorem Follows.cellCost_eq {q p : ℕ × ℕ}
    (h : Follows (directionAt dist a b fullCenter band) q p) :
    cellCost dist a b fullCenter band p =
      ((frameCost dist a b p : K) : WithTop K) + cellCost dist a b fullCenter band q := by
  have hin : InTable a b fullCenter band p := by
    by_contra hout
    rw [Follows, predecessor, directionAt_eq, cellFor_eq_empty hout] at h
    cases h
  rw [cellCost_records dist hin, h]
  rfl

/-- Only the corner of row `0` and column `0` is reached. -/
theorem eq_zero_of_reached (hzero : fullCenter.getD 0 0 = 0) {i j : ℕ} (hij : ¬ (0 < i ∧ 0 < j))
    (h : (cellFor dist a b fullCenter band i j).cost ≠ ⊤) : i = 0 ∧ j = 0 := by
  cases i with
  | zero =>
    cases j with
    | zero => exact ⟨rfl, rfl⟩
    | succ j => exact absurd (by rw [cellFor_zero_succ hzero]; rfl) h
  | succ i =>
    cases j with
    | zero => exact absurd (by rw [cellFor_succ_zero]; rfl) h
    | succ j => exact absurd ⟨Nat.succ_pos i, Nat.succ_pos j⟩ hij

/-- **The backtrack follows recorded directions only**, down to the first pair. -/
theorem backtrackFrom_follows (hzero : fullCenter.getD 0 0 = 0) (fuel i j : ℕ)
    (pairs : List (ℕ × ℕ)) (hfuel : i + j ≤ fuel)
    (hreached : (cellFor dist a b fullCenter band i j).cost ≠ ⊤)
    (hchain : pairs.IsChain (Follows (directionAt dist a b fullCenter band)))
    (hhead : ∀ q ∈ pairs.head?,
      predecessor (directionAt dist a b fullCenter band) q = some (i, j)) :
    (backtrackFrom (directionAt dist a b fullCenter band) fuel i j pairs).IsChain
        (Follows (directionAt dist a b fullCenter band)) ∧
      (∀ q ∈ (backtrackFrom (directionAt dist a b fullCenter band) fuel i j pairs).head?,
        predecessor (directionAt dist a b fullCenter band) q = some (0, 0)) ∧
      ∃ front, backtrackFrom (directionAt dist a b fullCenter band) fuel i j pairs
        = front ++ pairs := by
  induction fuel generalizing i j pairs with
  | zero =>
    obtain ⟨rfl, rfl⟩ : i = 0 ∧ j = 0 := by omega
    exact ⟨hchain, hhead, [], rfl⟩
  | succ fuel ih =>
    by_cases hpos : 0 < i ∧ 0 < j
    · obtain ⟨hi, hj⟩ := hpos
      have hcost : cellCost dist a b fullCenter band (i - 1, j - 1) ≠ ⊤ := by
        rw [cellCost, Nat.sub_add_cancel hi, Nat.sub_add_cancel hj]
        exact hreached
      obtain ⟨c, hc, hcreached⟩ := exists_predecessor hcost
      obtain ⟨hloop, hlt⟩ := backtrackFrom_succ hi hj hc fuel pairs
      -- the loop puts the cell in front, which what follows points back to
      have hchain' : ((i - 1, j - 1) :: pairs).IsChain
          (Follows (directionAt dist a b fullCenter band)) := by
        cases pairs with
        | nil => exact List.isChain_singleton _
        | cons q rest =>
          refine List.isChain_cons_cons.mpr ⟨?_, hchain⟩
          rw [Follows, Nat.sub_add_cancel hi, Nat.sub_add_cancel hj]
          exact hhead q rfl
      have hhead' : ∀ q ∈ ((i - 1, j - 1) :: pairs).head?,
          predecessor (directionAt dist a b fullCenter band) q = some (c.1, c.2) := by
        intro q hq
        obtain rfl : (i - 1, j - 1) = q := by simpa using hq
        exact hc
      rw [hloop]
      obtain ⟨hall, hfirst, front, hfront⟩ :=
        ih c.1 c.2 ((i - 1, j - 1) :: pairs) (by omega) hcreached hchain' hhead'
      exact ⟨hall, hfirst, front ++ [(i - 1, j - 1)], by rw [hfront, List.append_cons]⟩
    · obtain ⟨rfl, rfl⟩ := eq_zero_of_reached hzero hpos hreached
      rw [backtrackFrom, if_neg hpos]
      exact ⟨hchain, hhead, [], rfl⟩

/-! ## The path returned -/

/-- A warping path between the two ends that stays in the band. -/
def InBandPath (a b : List α) (fullCenter : List ℤ) (band : ℕ) (path : List (ℕ × ℕ)) : Prop :=
  PathTo (fun p => InBand fullCenter band (p.1 + 1) (p.2 + 1)) (a.length - 1, b.length - 1) path

theorem InBandPath.inTable {path : List (ℕ × ℕ)} (ha : a ≠ []) (hb : b ≠ [])
    (h : InBandPath a b fullCenter band path) :
    PathTo (InTable a b fullCenter band) (a.length - 1, b.length - 1) path := by
  have hn := List.length_pos_iff.mpr ha
  have hm := List.length_pos_iff.mpr hb
  refine ⟨h.isPath, h.head, h.last, fun q hq => ?_⟩
  obtain ⟨hi, hj⟩ := h.le_last q hq
  exact ⟨by omega, by omega, h.allowed q hq⟩

variable (dist) in
/-- **The backtrack of a reached end** is an in-band path of the cost in the table. -/
theorem backtrack_inBandPath (hzero : fullCenter.getD 0 0 = 0) (ha : a ≠ []) (hb : b ≠ [])
    (hreached : cellCost dist a b fullCenter band (a.length - 1, b.length - 1) ≠ ⊤) :
    InBandPath a b fullCenter band
        (backtrack (directionAt dist a b fullCenter band) a.length b.length) ∧
      cellCost dist a b fullCenter band (a.length - 1, b.length - 1) =
        weight (frameCost dist a b)
          (backtrack (directionAt dist a b fullCenter band) a.length b.length) ∧
      ∀ p ∈ backtrack (directionAt dist a b fullCenter band) a.length b.length,
        directionAt dist a b fullCenter band (p.1 + 1) (p.2 + 1) ≠ .unreached := by
  have hn := List.length_pos_iff.mpr ha
  have hm := List.length_pos_iff.mpr hb
  -- the first pair collected is the end, the others are collected in front of it
  obtain ⟨c, hc, hcreached⟩ := exists_predecessor hreached
  obtain ⟨hloop, hlt⟩ := backtrackFrom_succ hn hm hc (a.length + b.length - 1) []
  rw [Nat.sub_add_cancel (by omega)] at hloop
  have hhead : ∀ q ∈ [(a.length - 1, b.length - 1)].head?,
      predecessor (directionAt dist a b fullCenter band) q = some (c.1, c.2) := by
    intro q hq
    obtain rfl : (a.length - 1, b.length - 1) = q := by simpa using hq
    exact hc
  obtain ⟨hchain, hfirst, front, hfront⟩ := backtrackFrom_follows hzero
    (a.length + b.length - 1) c.1 c.2 [(a.length - 1, b.length - 1)] (by omega) hcreached
    (List.isChain_singleton _) hhead
  rw [backtrack, hloop]
  generalize backtrackFrom (directionAt dist a b fullCenter band) (a.length + b.length - 1) c.1 c.2
    [(a.length - 1, b.length - 1)] = pairs at hchain hfirst hfront
  have hsome := isSome_of_isChain hchain fun q hq => by rw [hfirst q hq]; rfl
  have hrecorded : ∀ p ∈ pairs,
      directionAt dist a b fullCenter band (p.1 + 1) (p.2 + 1) ≠ .unreached :=
    fun p hp => predecessor_isSome_iff.mp (hsome p hp)
  have hlast : pairs.getLast? = some (a.length - 1, b.length - 1) := by
    rw [hfront, List.getLast?_concat]
  have hstart : pairs.head? = some (0, 0) := by
    cases hq : pairs.head? with
    | none =>
      rw [List.head?_eq_none_iff.mp hq] at hlast
      cases hlast
    | some q => rw [eq_zero_of_predecessor (hfirst q hq)]
  have hband : ∀ p ∈ pairs, InTable a b fullCenter band p := by
    intro p hp
    by_contra hout
    refine hrecorded p hp ?_
    rw [directionAt_eq, cellFor_eq_empty hout]
    rfl
  have hzeroCost : cellCost dist a b fullCenter band (0, 0) = frameCost dist a b (0, 0) := by
    rw [cellCost_records dist (hband _ (List.mem_of_head? hstart)), hfirst _ hstart, Option.elim_some,
      cellFor_zero_zero hzero, add_zero]
  exact ⟨⟨hchain.imp fun _ _ h => h.unitStep, hstart, hlast, fun p hp => (hband p hp).2.2⟩,
    eq_weight hzeroCost (hchain.imp fun _ _ h => h.cellCost_eq) hstart hlast, hrecorded⟩

/-! ## `banded_dtw` -/

variable (dist fullCenter band)

/-- The end of the table, as `banded_dtw` reads it. -/
theorem costAt_final (ha : a ≠ []) (hb : b ≠ []) :
    costAt (tableRow dist a b fullCenter band a.length)
      (b.length - (fullCenter.getD a.length 0 - band)) =
      cellCost dist a b fullCenter band (a.length - 1, b.length - 1) := by
  have hn := List.length_pos_iff.mpr ha
  have hm := List.length_pos_iff.mpr hb
  rw [costAt_eq, cellCost, Nat.sub_add_cancel hn, Nat.sub_add_cancel hm, cellFor]

/-- **How `banded_dtw` ends**: it fails where the end is not reached, and otherwise returns
the backtrack and its mean cost. -/
theorem bandedDtw_eq (ha : a ≠ []) (hb : b ≠ [])
    (hguard : (a.length + 1) * (2 * band + 1) ≤ dtwMaxCells) :
    (cellCost dist a b fullCenter band (a.length - 1, b.length - 1) = ⊤ →
      ∃ e, bandedDtw dist a b band (some fullCenter) = .error e ∧
        e.errorClass = .alignmentFailed) ∧
    ∀ cost : K, cellCost dist a b fullCenter band (a.length - 1, b.length - 1) = cost →
      ∃ result, bandedDtw dist a b band (some fullCenter) = .ok result ∧
        result.index1 = (backtrack (directionAt dist a b fullCenter band) a.length b.length).map
          Prod.fst ∧
        result.index2 = (backtrack (directionAt dist a b fullCenter band) a.length b.length).map
          Prod.snd ∧
        result.normalizedDistance =
          cost / (backtrack (directionAt dist a b fullCenter band) a.length b.length).length := by
  have hn : ¬ (a.length = 0 ∨ b.length = 0) := by
    rw [List.length_eq_zero_iff, List.length_eq_zero_iff]
    exact not_or.mpr ⟨ha, hb⟩
  have hfinal := costAt_final dist fullCenter band ha hb
  unfold bandedDtw
  dsimp only
  rw [Option.getD_some, if_neg hn, if_neg (not_lt.mpr hguard), hfinal]
  constructor
  · intro htop
    split_ifs
    · rw [htop]
      exact ⟨_, rfl, rfl⟩
    · exact ⟨_, rfl, rfl⟩
  · intro cost hcost
    have hin := inTable_of_cellCost (hcost ▸ WithTop.coe_ne_top)
    have hband := inBand_iff.mp hin.2.2
    dsimp only at hband
    rw [Nat.sub_add_cancel (List.length_pos_iff.mpr ha),
      Nat.sub_add_cancel (List.length_pos_iff.mpr hb)] at hband
    rw [if_neg (not_not_intro ⟨by omega, by omega⟩), hcost]
    exact ⟨_, rfl, rfl, rfl, rfl⟩

/-! ## Optimality -/

variable {dist fullCenter band} [IsStrictOrderedRing K]

/-- The table relaxes the first pair. -/
theorem cellCost_zero_le (hzero : fullCenter.getD 0 0 = 0)
    (h : InTable a b fullCenter band (0, 0)) :
    cellCost dist a b fullCenter band (0, 0) ≤ frameCost dist a b (0, 0) := by
  rw [cellCost, cellFor_inTable h]
  dsimp only
  rw [bestPredecessor_cost, cellFor_zero_zero hzero]
  have hbest : min (min (0 : WithTop K) (cellFor dist a b fullCenter band 0 1).cost)
      (cellFor dist a b fullCenter band 1 0).cost ≤ 0 :=
    (min_le_left _ _).trans (min_le_left _ _)
  exact (add_le_add_right hbest _).trans_eq (add_zero _)

/-- The table relaxes every step. -/
theorem cellCost_le {q p : ℕ × ℕ} (hstep : UnitStep q p) (h : InTable a b fullCenter band p) :
    cellCost dist a b fullCenter band p ≤
      ((frameCost dist a b p : K) : WithTop K) + cellCost dist a b fullCenter band q := by
  rw [cellCost, cellFor_inTable h]
  dsimp only
  rw [bestPredecessor_cost]
  refine add_le_add_right ?_ _
  rcases hstep with rfl | rfl | rfl
  · exact (min_le_left _ _).trans (min_le_left _ _)
  · exact (min_le_left _ _).trans (min_le_right _ _)
  · exact min_le_right _ _

variable (dist) in
/-- No in-band path is cheaper than the table says. -/
theorem cellCost_le_weight (hzero : fullCenter.getD 0 0 = 0) (ha : a ≠ []) (hb : b ≠ [])
    {path : List (ℕ × ℕ)} (h : InBandPath a b fullCenter band path) :
    cellCost dist a b fullCenter band (a.length - 1, b.length - 1) ≤
      weight (frameCost dist a b) path :=
  le_weight (cellCost_zero_le hzero) (fun _ _ hstep _ hp => cellCost_le hstep hp) (h.inTable ha hb)

variable (dist) in
/-- **The end is reached exactly when a path stays in the band.** -/
theorem cellCost_eq_top_iff (hzero : fullCenter.getD 0 0 = 0) (ha : a ≠ []) (hb : b ≠ []) :
    cellCost dist a b fullCenter band (a.length - 1, b.length - 1) = ⊤ ↔
      ¬ ∃ path, InBandPath a b fullCenter band path := by
  constructor
  · rintro htop ⟨path, hpath⟩
    have hle := cellCost_le_weight dist hzero ha hb hpath
    rw [htop, top_le_iff] at hle
    exact WithTop.coe_ne_top hle
  · intro hnone
    by_contra hreached
    exact hnone ⟨_, (backtrack_inBandPath dist hzero ha hb hreached).1⟩

variable (dist) in
/-- `banded_dtw` fails exactly when no path stays in the band. -/
theorem bandedDtw_alignmentFailed_iff (hzero : fullCenter.getD 0 0 = 0) (ha : a ≠ [])
    (hb : b ≠ []) (hguard : (a.length + 1) * (2 * band + 1) ≤ dtwMaxCells) :
    (∃ e, bandedDtw dist a b band (some fullCenter) = .error e ∧
      e.errorClass = .alignmentFailed) ↔ ¬ ∃ path, InBandPath a b fullCenter band path := by
  obtain ⟨hfail, hreturn⟩ := bandedDtw_eq dist fullCenter band ha hb hguard
  rw [← cellCost_eq_top_iff dist hzero ha hb]
  constructor
  · rintro ⟨e, herror, -⟩
    by_contra hreached
    obtain ⟨cost, hcost⟩ := WithTop.ne_top_iff_exists.mp hreached
    obtain ⟨result, hresult, -⟩ := hreturn cost hcost.symm
    rw [hresult] at herror
    cases herror
  · exact hfail

/-- **Banded DTW is correct and optimal.**  For nonempty sequences, centers that start at
`0` and a table under the size guard, `banded_dtw` raises `AlignmentFailed` if and only if
no warping path stays in the band; otherwise it returns one of least summed distance with
its mean, and its backtrack ends on its own, on recorded cells only. -/
theorem bandedDtw_optimal (dist : α → α → K) (a b : List α) (band : ℕ) (fullCenter : List ℤ)
    (ha : a ≠ []) (hb : b ≠ []) (hzero : fullCenter.getD 0 0 = 0)
    (hguard : (a.length + 1) * (2 * band + 1) ≤ dtwMaxCells) :
    ((∃ e, bandedDtw dist a b band (some fullCenter) = .error e ∧
        e.errorClass = .alignmentFailed) ↔ ¬ ∃ path, InBandPath a b fullCenter band path) ∧
    ((∃ path, InBandPath a b fullCenter band path) →
      ∃ result, bandedDtw dist a b band (some fullCenter) = .ok result ∧
        result.index1.length = result.index2.length ∧
        InBandPath a b fullCenter band result.pairs ∧
        (∀ path, InBandPath a b fullCenter band path →
          weight (frameCost dist a b) result.pairs ≤ weight (frameCost dist a b) path) ∧
        result.normalizedDistance =
          weight (frameCost dist a b) result.pairs / result.pairs.length ∧
        (∀ p ∈ result.pairs,
          directionAt dist a b fullCenter band (p.1 + 1) (p.2 + 1) ≠ .unreached) ∧
        ∀ fuel, a.length + b.length ≤ fuel →
          backtrackFrom (directionAt dist a b fullCenter band) fuel a.length b.length []
            = result.pairs) := by
  obtain ⟨-, hreturn⟩ := bandedDtw_eq dist fullCenter band ha hb hguard
  refine ⟨bandedDtw_alignmentFailed_iff dist hzero ha hb hguard, fun hfeasible => ?_⟩
  have hreached : cellCost dist a b fullCenter band (a.length - 1, b.length - 1) ≠ ⊤ :=
    fun htop => (cellCost_eq_top_iff dist hzero ha hb).mp htop hfeasible
  obtain ⟨cost, hcost⟩ := WithTop.ne_top_iff_exists.mp hreached
  obtain ⟨hpath, hweight, hrecorded⟩ := backtrack_inBandPath dist hzero ha hb hreached
  obtain ⟨result, hresult, hindex1, hindex2, hnormalized⟩ := hreturn cost hcost.symm
  have hpairs : result.pairs =
      backtrack (directionAt dist a b fullCenter band) a.length b.length := by
    rw [WarpingPath.pairs, hindex1, hindex2, List.zip_map']
    simp
  -- the last cell holds the cost of the path that is returned
  have hcost' : cost = weight (frameCost dist a b) result.pairs := by
    rw [← hcost, ← hpairs] at hweight
    exact_mod_cast hweight
  refine ⟨result, hresult, ?_, ?_, ?_, ?_, ?_, ?_⟩
  · rw [hindex1, hindex2, List.length_map, List.length_map]
  · rw [hpairs]
    exact hpath
  · intro path hother
    have hle := cellCost_le_weight dist hzero ha hb hother
    rw [← hcost, hcost'] at hle
    exact_mod_cast hle
  · rw [hnormalized, hpairs, ← hpairs, ← hcost']
  · rw [hpairs]
    exact hrecorded
  · intro fuel hfuel
    rw [hpairs]
    induction fuel, hfuel using Nat.le_induction with
    | base => rfl
    | succ fuel hle ih => rw [backtrackFrom_fuel _ _ _ _ _ hle, ih]

end Table

/-- Two equal recordings of two frames, with the band around the diagonal. -/
theorem bandedDtw_optimal_twoFrames :
    ∃ result, bandedDtw (fun x y : ℚ => |x - y|) [0, 1] [0, 1] 1 (some [0, 1, 2]) = .ok result ∧
      weight (frameCost (fun x y : ℚ => |x - y|) [0, 1] [0, 1]) result.pairs ≤
        weight (frameCost (fun x y : ℚ => |x - y|) [0, 1] [0, 1]) [(0, 0), (1, 1)] := by
  have hpath : InBandPath ([0, 1] : List ℚ) [0, 1] [0, 1, 2] 1 [(0, 0), (1, 1)] := by
    refine ⟨List.isChain_pair.mpr (Or.inl rfl), rfl, rfl, ?_⟩
    simp [InBand]
  obtain ⟨-, hreturn⟩ := bandedDtw_optimal (fun x y : ℚ => |x - y|) [0, 1] [0, 1] 1 [0, 1, 2]
    (by simp) (by simp) rfl (by decide)
  obtain ⟨result, hresult, -, -, hleast, -⟩ := hreturn ⟨_, hpath⟩
  exact ⟨result, hresult, hleast _ hpath⟩

end VocalCoach
