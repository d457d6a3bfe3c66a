/-
# The centers of the refine band

`refine_center` in closed form.  A coarse path to `p`, read five times as fine, sets fine
user frame `k` against `projected late path p.1 k`: between two coarse user frames it crosses
from the last reference frame of the one to the first of the next, so it moves by at most
one a frame (`projected_succ_inner`), and on landing on the next coarse user frame it jumps
over all the reference frames matched to it (`projected_succ_landing`).

Times are rounded, so the knot of a coarse frame may be later than the fine frame on it
(`lateKnot`); then the interpolation still reads the piece before the knot there, and lands
one fine frame later (`landing`).  `abs_reading_sub_projected_lt` is what any times near the
exact ones (`NearGrid`) come to: the projected frame, within less than a half.

The remaining gap to the end of the reference is spread over the whole (`drift`).
`refineCenterBy_succ` puts the two together; every clip of the source is without effect.
-/
import VocalCoach.Dtw
import VocalCoach.LatticeCosts

namespace VocalCoach

open Interpolation LatticePath

/-! ## The coarse path on the fine grid -/

/-- The fine reference frame against fine user frame `k`, for a coarse path that ends over
user frame `last`. -/
def projected (late : ℕ → Bool) (path : List (ℕ × ℕ)) (last k : ℕ) : ℤ :=
  if k % 5 = 0 ∧ k / 5 ≤ last ∧ late (k / 5) then 5 * firstAt path (k / 5)
  else if k / 5 < last then
    5 * lastAt path (k / 5) +
      (k % 5 : ℕ) * ((firstAt path (k / 5 + 1) : ℤ) - lastAt path (k / 5))
  else 5 * lastAt path last

/-- The fine user frame that is first set against the last reference frame of coarse user
frame `i`, or beyond. -/
def landing (late : ℕ → Bool) (i : ℕ) : ℕ := if late i then 5 * i + 1 else 5 * i

/-- How far the path goes on from coarse user frame `i` to the next one. -/
def onward (path : List (ℕ × ℕ)) (last i : ℕ) : ℤ :=
  if i < last then (firstAt path (i + 1) : ℤ) - lastAt path i else 0

section Projected

variable {allowed : ℕ × ℕ → Prop} {p : ℕ × ℕ} {path : List (ℕ × ℕ)} {late : ℕ → Bool} {k : ℕ}

/-- The path goes on by one reference frame, or stays. -/
theorem onward_range (h : PathTo allowed p path) (i : ℕ) :
    0 ≤ onward path p.1 i ∧ onward path p.1 i ≤ 1 := by
  unfold onward
  split_ifs with hlt
  · obtain ⟨hlow, hhigh⟩ := firstAt_succ h.isPath (h.fiber_ne_nil hlt.le)
      (h.fiber_ne_nil (show i + 1 ≤ p.1 by omega))
    omega
  · omega

theorem lastAt_add_onward (path : List (ℕ × ℕ)) {last i : ℕ} (hi : i < last) :
    lastAt path i + onward path last i = firstAt path (i + 1) := by
  rw [onward, if_pos hi]
  ring

/-- On a late knot the projection is still before the frame's reference frames. -/
theorem projected_late {last i : ℕ} (hi : i ≤ last) (hlate : late i = true) :
    projected late path last (5 * i) = 5 * firstAt path i := by
  have hdiv : 5 * i / 5 = i := by omega
  have hmod : 5 * i % 5 = 0 := by omega
  rw [projected, hdiv, if_pos ⟨hmod, hi, hlate⟩]

/-- Elsewhere it is on its way from one coarse frame to the next. -/
theorem projected_between {last i r : ℕ} (hi : i ≤ last) (hr : r < 5)
    (hlate : r = 0 → late i = false) :
    projected late path last (5 * i + r) = 5 * lastAt path i + r * onward path last i := by
  have hdiv : (5 * i + r) / 5 = i := by omega
  have hmod : (5 * i + r) % 5 = r := by omega
  have hnot : ¬ (r = 0 ∧ i ≤ last ∧ late i = true) := by
    rintro ⟨h0, -, hlate'⟩
    rw [hlate h0] at hlate'
    cases hlate'
  rw [projected, hdiv, hmod, if_neg hnot, onward]
  split_ifs with hlt
  · rfl
  · rw [show i = last by omega]
    ring

/-- Past the last coarse frame it stands still. -/
theorem projected_beyond {last : ℕ} (hk : 5 * last + 5 ≤ k) :
    projected late path last k = 5 * lastAt path last := by
  rw [projected, if_neg (by omega), if_neg (by omega)]

theorem projected_zero (hlate : late 0 = false) (path : List (ℕ × ℕ)) (last : ℕ) :
    projected late path last 0 = 5 * lastAt path 0 := by
  have hstart : projected late path last (5 * 0 + 0) =
      5 * lastAt path 0 + (0 : ℕ) * onward path last 0 :=
    projected_between (Nat.zero_le last) (by decide) fun _ => hlate
  simpa using hstart

/-- Where no frame is landed on, the projection moves by the step of the path there. -/
theorem projected_succ_inner (path : List (ℕ × ℕ)) {last : ℕ}
    (hk : ∀ i, 0 < i → i ≤ last → k + 1 ≠ landing late i) (hstart : late 0 = false) :
    projected late path last (k + 1) = projected late path last k + onward path last (k / 5) := by
  obtain ⟨i, r, hr, rfl⟩ : ∃ i r, r < 5 ∧ k = 5 * i + r :=
    ⟨k / 5, k % 5, Nat.mod_lt k (by decide), (Nat.div_add_mod k 5).symm⟩
  rw [show (5 * i + r) / 5 = i by omega]
  by_cases hi : i ≤ last
  · -- a late knot is left by landing on it
    have hcurrent : r = 0 → late i = false := by
      rintro rfl
      by_contra hlate
      rw [Bool.not_eq_false] at hlate
      rcases Nat.eq_zero_or_pos i with rfl | hpos
      · rw [hstart] at hlate
        cases hlate
      · exact hk i hpos hi (by rw [landing, if_pos hlate])
    rw [projected_between hi hr hcurrent]
    by_cases hlast : r = 4
    · subst hlast
      by_cases hnext : i + 1 ≤ last
      · have hlate : late (i + 1) = true := by
          by_contra hnot
          exact hk (i + 1) (Nat.succ_pos i) hnext (by rw [landing, if_neg hnot]; omega)
        rw [show 5 * i + 4 + 1 = 5 * (i + 1) by omega, projected_late hnext hlate,
          ← lastAt_add_onward path (show i < last by omega)]
        push_cast
        ring
      · obtain rfl : i = last := by omega
        rw [projected_beyond (by omega), onward, if_neg (lt_irrefl _)]
        ring
    · rw [show 5 * i + r + 1 = 5 * i + (r + 1) by omega,
        projected_between hi (by omega) (by omega)]
      push_cast
      ring
  · rw [projected_beyond (by omega), projected_beyond (by omega), onward, if_neg (by omega),
      add_zero]

/-- On landing on a coarse frame, it jumps over the reference frames matched there. -/
theorem projected_succ_landing (path : List (ℕ × ℕ)) {last i : ℕ} (hi : i < last)
    (hk : k + 1 = landing late (i + 1)) :
    projected late path last (k + 1) = projected late path last k +
      (5 * ((lastAt path (i + 1) : ℤ) - firstAt path (i + 1)) +
        if late (i + 1) then onward path last (i + 1) else onward path last i) := by
  have hnext : i + 1 ≤ last := hi
  unfold landing at hk
  split_ifs at hk with hlate
  · obtain rfl : k = 5 * (i + 1) := by omega
    rw [if_pos hlate, projected_late hnext hlate,
      projected_between hnext (show 1 < 5 by decide) (by omega)]
    push_cast
    ring
  · obtain rfl : k = 5 * i + 4 := by omega
    have hlast := lastAt_add_onward path hi
    rw [if_neg hlate, show 5 * i + 4 + 1 = 5 * (i + 1) + 0 by omega,
      projected_between hnext (show 0 < 5 by decide) fun _ => by simpa using hlate,
      projected_between hi.le (show 4 < 5 by decide) (by omega)]
    push_cast
    omega

/-- Everywhere it moves by the step at least. -/
theorem onward_le_projected_succ (h : PathTo allowed p path) (hstart : late 0 = false) (k : ℕ) :
    projected late path p.1 k + onward path p.1 (k / 5) ≤ projected late path p.1 (k + 1) := by
  by_cases hk : ∀ i, 0 < i → i ≤ p.1 → k + 1 ≠ landing late i
  · exact (projected_succ_inner path hk hstart).ge
  · simp only [ne_eq, not_forall, not_not] at hk
    obtain ⟨i, hpos, hi, hland⟩ := hk
    obtain ⟨i, rfl⟩ := Nat.exists_eq_succ_of_ne_zero hpos.ne'
    have hjump := projected_succ_landing path (show i < p.1 by omega) hland
    have hrun := firstAt_le_lastAt h.isPath (i + 1)
    have hframe : k / 5 = if late (i + 1) then i + 1 else i := by
      unfold landing at hland
      split_ifs at hland ⊢ <;> omega
    rw [hjump, hframe]
    split_ifs <;> omega

theorem projected_mono (h : PathTo allowed p path) (hstart : late 0 = false) (k : ℕ) :
    projected late path p.1 k ≤ projected late path p.1 (k + 1) :=
  (le_add_of_nonneg_right (onward_range h (k / 5)).1).trans (onward_le_projected_succ h hstart k)

theorem projected_le_of_le (h : PathTo allowed p path) (hstart : late 0 = false) {k k' : ℕ}
    (hkk' : k ≤ k') : projected late path p.1 k ≤ projected late path p.1 k' :=
  monotone_nat_of_le_succ (projected_mono h hstart) hkk'

theorem projected_nonneg (h : PathTo allowed p path) (hstart : late 0 = false) (k : ℕ) :
    0 ≤ projected late path p.1 k := by
  refine le_trans ?_ (projected_le_of_le h hstart (Nat.zero_le k))
  rw [projected_zero hstart]
  positivity

/-- No fine frame is projected past the end of the coarse path. -/
theorem projected_le (h : PathTo allowed p path) (hstart : late 0 = false) (k : ℕ) :
    projected late path p.1 k ≤ 5 * p.2 := by
  refine (projected_le_of_le h hstart (Nat.le_add_right k (5 * p.1 + 5))).trans_eq ?_
  rw [projected_beyond (by omega), h.lastAt_last]

end Projected

/-! ## Times that are rounded -/

/-- The knot of coarse frame `i` is later than the fine frame on it. -/
def lateKnot (fineTime coarseTime : ℕ → ℚ) (i : ℕ) : Bool :=
  decide (fineTime (5 * i) < coarseTime i)

/-- The times of the first frames are within a 64th of a fine hop of the exact ones. -/
structure NearGrid (fineTime coarseTime : ℕ → ℚ) (hop : ℚ) (limit : ℕ) : Prop where
  hop_pos : 0 < hop
  fine : ∀ k ≤ limit, |fineTime k / hop - k| ≤ 1 / 64
  coarse : ∀ i ≤ limit, |coarseTime i / hop - 5 * i| ≤ 1 / 64
  start : coarseTime 0 ≤ fineTime 0

section Reading

variable {allowed : ℕ × ℕ → Prop} {p : ℕ × ℕ} {path : List (ℕ × ℕ)}
  {fineTime coarseTime : ℕ → ℚ} {hop : ℚ} {limit i k : ℕ}

theorem NearGrid.lateKnot_zero (grid : NearGrid fineTime coarseTime hop limit) :
    lateKnot fineTime coarseTime 0 = false :=
  decide_eq_false (not_lt.mpr grid.start)

/-- Only on the frame itself do the knot and the fine frame come close. -/
theorem NearGrid.coarse_le_fine (grid : NearGrid fineTime coarseTime hop limit) (hk : k ≤ limit)
    (hik : 5 * i ≤ k) (hlate : k = 5 * i → lateKnot fineTime coarseTime i = false) :
    ∀ j ≤ i, coarseTime j ≤ fineTime k := by
  intro j hj
  by_cases hjk : k = 5 * j
  · obtain rfl : j = i := by omega
    rw [hjk]
    exact not_lt.mp (of_decide_eq_false (hlate hjk))
  · have hgap : 5 * (j : ℚ) + 1 ≤ k := by exact_mod_cast (show 5 * j + 1 ≤ k by omega)
    have hcoarse := (abs_le.mp (grid.coarse j (by omega))).2
    have hfine := (abs_le.mp (grid.fine k hk)).1
    exact (div_le_div_iff_of_pos_right grid.hop_pos).mp (by linarith)

theorem NearGrid.fine_lt_coarse (grid : NearGrid fineTime coarseTime hop limit) (hk : k ≤ limit)
    (hi : i ≤ limit) (hki : k < 5 * i) : fineTime k < coarseTime i := by
  have hgap : (k : ℚ) + 1 ≤ 5 * i := by exact_mod_cast hki
  have hcoarse := (abs_le.mp (grid.coarse i hi)).1
  have hfine := (abs_le.mp (grid.fine k hk)).2
  exact (div_lt_div_iff_of_pos_right grid.hop_pos).mp (by linarith)

/-- A crossing of one reference frame or none, read at `s` of its five fine frames. -/
theorem abs_crossing_sub_lt {y z a c s d : ℚ} {l : ℚ} (hs0 : 0 ≤ s) (hs5 : s ≤ 5)
    (hd : d = 0 ∨ d = 1) (hy : |y - 5 * l| ≤ 1 / 64) (hz : |z - 5 * d| ≤ 1 / 32)
    (ha : |a - s| ≤ 1 / 32) (hc : |c - 5| ≤ 1 / 32) :
    |y + a * (z / c) - (5 * l + s * d)| < 1 / 2 := by
  rw [abs_le] at hy hz ha hc
  have hcpos : 4 < c := by linarith
  -- the crossing ends within an eighth of where it should
  have hproduct : |a * z - s * d * c| ≤ 1 / 2 := by
    rcases hd with rfl | rfl <;> rw [abs_le] <;> constructor <;> nlinarith
  have hpart : |a * (z / c) - s * d| ≤ 1 / 8 := by
    have hsplit : a * (z / c) - s * d = (a * z - s * d * c) / c := by
      field_simp
    rw [hsplit, abs_div, abs_of_pos (by linarith : 0 < c), div_le_iff₀ (by linarith)]
    linarith
  rw [abs_le] at hpart
  rw [abs_lt]
  constructor <;> linarith

/-- Between coarse frames `i` and `i + 1`, `s` fine frames on. -/
theorem abs_reading_sub_crossing_lt (h : PathTo allowed p path)
    (grid : NearGrid fineTime coarseTime hop limit) (hp1 : p.1 ≤ limit) (hp2 : p.2 ≤ limit)
    (hk : k ≤ limit) {s : ℕ} (hi : i < p.1) (hks : k = 5 * i + s) (hs : s ≤ 5)
    (hbefore : ∀ j ≤ i, coarseTime j ≤ fineTime k) (hafter : fineTime k < coarseTime (i + 1)) :
    |interp (fineTime k) (path.map fun q => (coarseTime q.1, coarseTime q.2)) / hop -
      ((5 * lastAt path i + s * onward path p.1 i : ℤ) : ℚ)| < 1 / 2 := by
  have hhop := grid.hop_pos
  have hne := h.fiber_ne_nil hi.le
  have hnext := h.fiber_ne_nil (show i + 1 ≤ p.1 by omega)
  have hmem : ∀ {a b : ℕ}, (a, b) ∈ path → b ≤ limit := fun hq => (h.le_last _ hq).2.trans hp2
  have hlast : lastAt path i ≤ limit :=
    hmem (mem_fiber.mp (lastAt_eq hne ▸ List.getLast_mem hne))
  have hfirst : firstAt path (i + 1) ≤ limit :=
    hmem (mem_fiber.mp (firstAt_eq hnext ▸ List.head_mem hnext))
  rw [interp_knots_between h.isPath (X := coarseTime) (Y := coarseTime) hne hnext hbefore hafter,
    ← lastAt_eq hne, ← firstAt_eq hnext]
  have honward := onward_range h i
  have hsum := lastAt_add_onward path hi
  have hd : (onward path p.1 i : ℚ) = 0 ∨ (onward path p.1 i : ℚ) = 1 := by
    rcases (show onward path p.1 i = 0 ∨ onward path p.1 i = 1 by omega) with h0 | h1
    · exact Or.inl (by rw [h0]; rfl)
    · exact Or.inr (by rw [h1]; rfl)
  have hsum' : (firstAt path (i + 1) : ℚ) = lastAt path i + onward path p.1 i := by
    exact_mod_cast hsum.symm
  have hks' : (k : ℚ) = 5 * i + s := by exact_mod_cast hks
  -- in units of the fine hop everything is near a whole number
  have hY := grid.coarse _ hlast
  have hY₁ := abs_le.mp hY
  have hY' := abs_le.mp (grid.coarse _ hfirst)
  have hX := abs_le.mp (grid.coarse i (by omega))
  have hX' := abs_le.mp (grid.coarse (i + 1) (by omega))
  have hx := abs_le.mp (grid.fine k hk)
  push_cast at hX'
  have hunits : (coarseTime (lastAt path i) + (fineTime k - coarseTime i) *
      ((coarseTime (firstAt path (i + 1)) - coarseTime (lastAt path i)) /
        (coarseTime (i + 1) - coarseTime i))) / hop =
      coarseTime (lastAt path i) / hop + (fineTime k / hop - coarseTime i / hop) *
        ((coarseTime (firstAt path (i + 1)) / hop - coarseTime (lastAt path i) / hop) /
          (coarseTime (i + 1) / hop - coarseTime i / hop)) := by
    rw [← sub_div, ← sub_div, ← sub_div, div_div_div_cancel_right₀ hhop.ne', add_div]
    ring
  rw [hunits]
  push_cast
  refine abs_crossing_sub_lt (by positivity) (by exact_mod_cast hs) hd hY ?_ ?_ ?_
  · rw [abs_le]
    constructor <;> linarith
  · rw [abs_le]
    constructor <;> linarith
  · rw [abs_le]
    constructor <;> linarith

/-- Past the last coarse frame the reading is the end of the path. -/
theorem reading_beyond (h : PathTo allowed p path)
    (grid : NearGrid fineTime coarseTime hop limit) (hk : k ≤ limit) (hpk : 5 * p.1 ≤ k)
    (hlate : k = 5 * p.1 → lateKnot fineTime coarseTime p.1 = false) :
    interp (fineTime k) (path.map fun q => (coarseTime q.1, coarseTime q.2)) = coarseTime p.2 := by
  have hend : (path.map fun q => (coarseTime q.1, coarseTime q.2)).getLast? =
      some (coarseTime p.1, coarseTime p.2) := by
    rw [List.getLast?_map, h.last]
    rfl
  refine interp_of_forall_le hend fun q hq => ?_
  obtain ⟨s, hs, rfl⟩ := List.mem_map.mp hq
  exact grid.coarse_le_fine hk hpk hlate s.1 (h.le_last s hs).1

/-- **What the interpolation reads on the fine grid.** -/
theorem abs_reading_sub_projected_lt (h : PathTo allowed p path)
    (grid : NearGrid fineTime coarseTime hop limit) (hp1 : p.1 ≤ limit) (hp2 : p.2 ≤ limit)
    (hk : k ≤ limit) :
    |interp (fineTime k) (path.map fun q => (coarseTime q.1, coarseTime q.2)) / hop -
      projected (lateKnot fineTime coarseTime) path p.1 k| < 1 / 2 := by
  obtain ⟨i, r, hr, hkr⟩ : ∃ i r, r < 5 ∧ k = 5 * i + r :=
    ⟨k / 5, k % 5, Nat.mod_lt k (by decide), (Nat.div_add_mod k 5).symm⟩
  by_cases hlate : r = 0 ∧ i ≤ p.1 ∧ lateKnot fineTime coarseTime i = true
  · -- still on the piece before the knot, at its end
    obtain ⟨rfl, hi, hlate⟩ := hlate
    obtain ⟨i, rfl⟩ : ∃ j, i = j + 1 := by
      refine Nat.exists_eq_succ_of_ne_zero ?_
      rintro rfl
      rw [grid.lateKnot_zero] at hlate
      cases hlate
    have hknot : fineTime k < coarseTime (i + 1) := by
      rw [hkr]
      exact of_decide_eq_true hlate
    have hread := abs_reading_sub_crossing_lt h grid hp1 hp2 hk hi (s := 5) (by omega) le_rfl
      (grid.coarse_le_fine hk (by omega) (by omega)) hknot
    have hend : projected (lateKnot fineTime coarseTime) path p.1 k =
        5 * lastAt path i + (5 : ℕ) * onward path p.1 i := by
      rw [hkr, Nat.add_zero, projected_late hi hlate, ← lastAt_add_onward path hi]
      push_cast
      ring
    rw [hend]
    exact hread
  · have hnot : r = 0 → i ≤ p.1 → lateKnot fineTime coarseTime i = false := by
      intro h0 hi
      by_contra hnot
      exact hlate ⟨h0, hi, by simpa using hnot⟩
    by_cases hlt : i < p.1
    · have hread := abs_reading_sub_crossing_lt h grid hp1 hp2 hk hlt hkr hr.le
        (grid.coarse_le_fine hk (by omega) fun hk => hnot (by omega) hlt.le)
        (grid.fine_lt_coarse hk (by omega) (by omega))
      rw [hkr, projected_between hlt.le hr fun h0 => hnot h0 hlt.le, ← hkr]
      exact hread
    · -- past the last coarse frame
      have hclamp := reading_beyond h grid hk (by omega)
        fun hk => (show i = p.1 by omega) ▸ hnot (by omega) (by omega)
      have hend : projected (lateKnot fineTime coarseTime) path p.1 k = 5 * p.2 := by
        by_cases hi : i = p.1
        · subst hi
          rw [hkr, projected_between le_rfl hr fun h0 => hnot h0 le_rfl, onward,
            if_neg (lt_irrefl _), h.lastAt_last]
          ring
        · rw [projected_beyond (by omega), h.lastAt_last]
      rw [hclamp, hend]
      push_cast
      exact (grid.coarse p.2 hp2).trans_lt (by norm_num)

end Reading

/-! ## The drift -/

/-- The share of the end gap added to row `k` of `n`. -/
def drift (gap : ℤ) (n k : ℕ) : ℤ := roundHalfEven (gap * k / n)

section Drift

variable {gap : ℤ} {n : ℕ}

@[simp] theorem drift_zero (gap : ℤ) (n : ℕ) : drift gap n 0 = 0 := by
  have h : roundHalfEven ((0 : ℤ) : ℚ) = 0 := roundHalfEven_intCast 0
  simpa [drift] using h

theorem drift_self (hn : 0 < n) : drift gap n n = gap := by
  have hn' : (n : ℚ) ≠ 0 := by exact_mod_cast hn.ne'
  rw [drift, mul_div_cancel_right₀ _ hn']
  exact roundHalfEven_intCast gap

theorem drift_mono (hgap : 0 ≤ gap) {k k' : ℕ} (h : k ≤ k') : drift gap n k ≤ drift gap n k' := by
  have hgap' : (0 : ℚ) ≤ gap := by exact_mod_cast hgap
  have hk : (k : ℚ) ≤ k' := by exact_mod_cast h
  unfold drift
  apply roundHalfEven_mono
  gcongr

/-- From one row to the next the drift grows by little more than the gap. -/
theorem drift_succ_le (hgap : 0 ≤ gap) (hn : 0 < n) (k : ℕ) :
    drift gap n (k + 1) ≤ drift gap n k + (gap + 1) := by
  have hgap' : (0 : ℚ) ≤ gap := by exact_mod_cast hgap
  have hn' : (1 : ℚ) ≤ n := by exact_mod_cast hn
  have hshare : (gap : ℚ) / n ≤ gap := div_le_self hgap' hn'
  have hnext : (gap : ℚ) * (k + 1 : ℕ) / n = gap * k / n + gap / n := by
    push_cast
    ring
  have h1 := (abs_le.mp (abs_roundHalfEven_sub_le ((gap : ℚ) * k / n))).1
  have h2 := (abs_le.mp (abs_roundHalfEven_sub_le ((gap : ℚ) * (k + 1 : ℕ) / n))).2
  have hle : ((drift gap n (k + 1) : ℤ) : ℚ) ≤ ((drift gap n k + (gap + 1) : ℤ) : ℚ) := by
    unfold drift
    push_cast at h1 h2 hnext ⊢
    linarith
  exact_mod_cast hle

end Drift

/-! ## `refine_center` -/

theorem clip_eq {x lo hi : ℤ} (h1 : lo ≤ x) (h2 : x ≤ hi) : clip x lo hi = x := by
  unfold clip
  omega

/-- What is within less than a half of an integer is rounded to it. -/
theorem roundHalfEven_eq_of_abs_sub_lt {x : ℚ} {z : ℤ} (h : |x - z| < 1 / 2) :
    roundHalfEven x = z := by
  have hround := abs_le.mp (abs_roundHalfEven_sub_le x)
  have hnear := abs_lt.mp h
  have hlow : ((roundHalfEven x : ℤ) : ℚ) < ((z + 1 : ℤ) : ℚ) := by
    push_cast
    linarith
  have hhigh : ((z - 1 : ℤ) : ℚ) < ((roundHalfEven x : ℤ) : ℚ) := by
    push_cast
    linarith
  have hlow' : roundHalfEven x < z + 1 := by exact_mod_cast hlow
  have hhigh' : z - 1 < roundHalfEven x := by exact_mod_cast hhigh
  omega

section Center

variable {K : Type*} {allowed : ℕ × ℕ → Prop} {p : ℕ × ℕ} {path : List (ℕ × ℕ)}
  {coarse : WarpingPath K} {time : ℚ → ℚ} {coarseHop fineHop : ℚ} {n m limit : ℕ}

/-- Row `0` is centered on column `0`. -/
theorem refineCenterBy_zero (time : ℚ → ℚ) (coarse : WarpingPath K) (coarseHop fineHop : ℚ)
    (n m : ℕ) (hn : 0 < n) :
    (refineCenterBy time roundHalfEven coarse coarseHop fineHop n m).getD 0 0 = 0 := by
  have hround : roundHalfEven ((0 : ℤ) : ℚ) = 0 := roundHalfEven_intCast 0
  push_cast at hround
  unfold refineCenterBy
  dsimp only
  rw [List.getD_eq_getElem?_getD, List.getElem?_mapIdx]
  simp only [if_true]
  split_ifs
  · rw [List.getElem?_set_ne hn.ne', List.getElem?_mapIdx, List.getElem?_cons_zero]
    simp [hround]
  · rfl

/-- The late knots of the two grids. -/
def lateOf (time : ℚ → ℚ) (coarseHop fineHop : ℚ) : ℕ → Bool :=
  lateKnot (fun k => time (k * fineHop)) fun i => time (i * coarseHop)

/-- The centers before the drift. -/
theorem rawCenter_eq (h : PathTo allowed p path) (h1 : coarse.index1 = path.map Prod.fst)
    (h2 : coarse.index2 = path.map Prod.snd)
    (grid : NearGrid (fun k => time (k * fineHop)) (fun i => time (i * coarseHop)) fineHop limit)
    (hp1 : p.1 ≤ limit) (hp2 : p.2 ≤ limit) (hm : 5 * p.2 < m) {k : ℕ} (hk : k ≤ limit) :
    clip (roundHalfEven (interp (time (k * fineHop))
        ((coarse.index1.map fun i : ℕ => time (i * coarseHop)).zip
          (coarse.index2.map fun j : ℕ => time (j * coarseHop))) / fineHop)) 0 m =
      projected (lateOf time coarseHop fineHop) path p.1 k := by
  have hknots : (coarse.index1.map fun i : ℕ => time (i * coarseHop)).zip
      (coarse.index2.map fun j : ℕ => time (j * coarseHop)) =
      path.map fun q => (time (q.1 * coarseHop), time (q.2 * coarseHop)) := by
    rw [h1, h2, List.map_map, List.map_map, List.zip_map']
    rfl
  have hread := abs_reading_sub_projected_lt h grid hp1 hp2 hk
  rw [hknots, roundHalfEven_eq_of_abs_sub_lt hread]
  have hle := projected_le h grid.lateKnot_zero k
  exact clip_eq (projected_nonneg h grid.lateKnot_zero k) (by omega)

/-- **The centers of the refine band**, row `0` aside: the projected frame and its share of
what the last one leaves of the reference. -/
theorem refineCenterBy_succ (h : PathTo allowed p path) (h1 : coarse.index1 = path.map Prod.fst)
    (h2 : coarse.index2 = path.map Prod.snd)
    (grid : NearGrid (fun k => time (k * fineHop)) (fun i => time (i * coarseHop)) fineHop limit)
    (hp1 : p.1 ≤ limit) (hp2 : p.2 ≤ limit) (hn : n ≤ limit) (hm : 5 * p.2 < m) {k : ℕ}
    (hk : k < n) :
    (refineCenterBy time roundHalfEven coarse coarseHop fineHop n m).getD (k + 1) 0 =
      projected (lateOf time coarseHop fineHop) path p.1 k +
        drift (m - projected (lateOf time coarseHop fineHop) path p.1 (n - 1)) n (k + 1) := by
  have hstart : lateOf time coarseHop fineHop 0 = false := grid.lateKnot_zero
  generalize hlate : lateOf time coarseHop fineHop = late at hstart ⊢
  have hraw : ((List.range n).map fun i : ℕ =>
      clip (roundHalfEven (interp (time (i * fineHop))
        ((coarse.index1.map fun i : ℕ => time (i * coarseHop)).zip
          (coarse.index2.map fun j : ℕ => time (j * coarseHop))) / fineHop)) 0 m) =
      (List.range n).map (projected late path p.1) := by
    refine List.map_congr_left fun i hi => ?_
    rw [← hlate]
    exact rawCenter_eq h h1 h2 grid hp1 hp2 hm ((List.mem_range.mp hi).le.trans hn)
  -- the last of them leaves the gap
  have hlast : ((0 : ℤ) :: (List.range n).map (projected late path p.1)).getD n 0 =
      projected late path p.1 (n - 1) := by
    obtain ⟨n', rfl⟩ := Nat.exists_eq_succ_of_ne_zero (by omega : n ≠ 0)
    rw [List.getD_cons_succ, List.getD_eq_getElem?_getD, List.getElem?_map,
      List.getElem?_range (Nat.lt_succ_self n')]
    rfl
  have hend := projected_le h hstart (n - 1)
  generalize hgapdef : (m : ℤ) - projected late path p.1 (n - 1) = gap
  have hgap : 0 < gap := by omega
  unfold refineCenterBy TimeMap.fromWarpingPathBy TimeMap.userToReference
  dsimp only
  rw [hraw, hlast, hgapdef, if_pos ⟨by omega, by omega⟩, List.getD_eq_getElem?_getD,
    List.getElem?_mapIdx, List.getElem?_set, List.getElem?_mapIdx, List.getElem?_cons_succ,
    List.getElem?_map, List.getElem?_range hk]
  have hdrift : drift gap n (k + 1) ≤ drift gap n n := drift_mono hgap.le (by omega)
  have hdrift' : drift gap n 0 ≤ drift gap n (k + 1) := drift_mono hgap.le (Nat.zero_le _)
  rw [drift_self (by omega)] at hdrift
  rw [drift_zero] at hdrift'
  have hle := projected_le_of_le h hstart (show k ≤ n - 1 by omega)
  have hnonneg := projected_nonneg h hstart k
  by_cases heq : n = k + 1
  · -- the last row is set to the end of the reference
    subst heq
    rw [if_pos rfl, if_pos (by simp), Option.map_some, if_neg (Nat.succ_ne_zero k),
      Option.getD_some, drift_self (Nat.succ_pos k), clip_eq (by omega) le_rfl]
    rw [Nat.add_sub_cancel] at hgapdef
    omega
  · rw [if_neg heq]
    show (if k + 1 = 0 then projected late path p.1 k + drift gap n (k + 1) else
      clip (projected late path p.1 k + drift gap n (k + 1)) 0 m) = _
    rw [if_neg (Nat.succ_ne_zero k), clip_eq (by omega) (by omega)]

end Center

end VocalCoach
