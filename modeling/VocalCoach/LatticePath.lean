/-
# Lattice paths with unit steps

A lattice path is a list of points of `ℕ × ℕ` in which each point follows the one
before it by `(1, 1)`, `(1, 0)` or `(0, 1)`.  The points of a path in one column of
first coordinate `i` have consecutive second coordinates (`fiber_eq_range'`), which is
all that comparing the path with an interpolation through its points needs
(`interp_scaled`).
-/
import VocalCoach.Interpolation
import Mathlib.Data.List.Range

namespace LatticePath

open Interpolation

/-- One step of a path. -/
def UnitStep (p q : ℕ × ℕ) : Prop :=
  q = (p.1 + 1, p.2 + 1) ∨ q = (p.1 + 1, p.2) ∨ q = (p.1, p.2 + 1)

/-- Consecutive points differ by a unit step. -/
abbrev IsPath (path : List (ℕ × ℕ)) : Prop := path.IsChain UnitStep

theorem UnitStep.fst_le {p q : ℕ × ℕ} (h : UnitStep p q) : p.1 ≤ q.1 := by
  rcases h with rfl | rfl | rfl <;> simp

theorem isPath_cons_cons {p q : ℕ × ℕ} {path : List (ℕ × ℕ)} :
    IsPath (p :: q :: path) ↔ UnitStep p q ∧ IsPath (q :: path) := List.isChain_cons_cons

/-- A path rises in both coordinates. -/
theorem IsPath.rises {path : List (ℕ × ℕ)} (h : IsPath path) : path.Pairwise (· ≤ ·) := by
  have hchain : path.IsChain (· ≤ ·) := h.imp fun p q hpq => by
    rcases hpq with rfl | rfl | rfl <;> exact ⟨by simp, by simp⟩
  exact hchain.pairwise

/-- The first point has the least first coordinate. -/
theorem fst_le_of_mem {p : ℕ × ℕ} {path : List (ℕ × ℕ)} (h : IsPath (p :: path)) :
    ∀ q ∈ path, p.1 ≤ q.1 := by
  induction path generalizing p with
  | nil => simp
  | cons r path ih =>
    rw [isPath_cons_cons] at h
    intro q hq
    rcases List.mem_cons.mp hq with rfl | hq
    · exact h.1.fst_le
    · exact h.1.fst_le.trans (ih h.2 q hq)

/-- The last point has the greatest first coordinate. -/
theorem fst_le_of_getLast {p : ℕ × ℕ} {path : List (ℕ × ℕ)} (h : IsPath path)
    (hlast : path.getLast? = some p) : ∀ q ∈ path, q.1 ≤ p.1 := by
  induction path with
  | nil => simp
  | cons r path ih =>
    intro q hq
    cases path with
    | nil =>
      obtain rfl : r = p := by simpa using hlast
      rw [List.mem_singleton.mp hq]
    | cons s path =>
      rw [List.getLast?_cons_cons] at hlast
      rcases List.mem_cons.mp hq with rfl | hq
      · exact fst_le_of_mem h p (List.mem_of_getLast? hlast)
      · exact ih h.tail hlast q hq

/-- The second coordinates of the points whose first coordinate is `i`, in order. -/
def fiber (path : List (ℕ × ℕ)) (i : ℕ) : List ℕ :=
  (path.filter (fun p => p.1 = i)).map Prod.snd

theorem mem_fiber {path : List (ℕ × ℕ)} {i j : ℕ} : j ∈ fiber path i ↔ (i, j) ∈ path := by
  simp [fiber]

theorem ne_nil_of_mem_fiber {path : List (ℕ × ℕ)} {i j : ℕ} (h : (i, j) ∈ path) :
    fiber path i ≠ [] :=
  List.ne_nil_of_mem (mem_fiber.mpr h)

/-- How often a first coordinate occurs on the path. -/
theorem count_fst_eq_length_fiber (path : List (ℕ × ℕ)) (i : ℕ) :
    (path.map Prod.fst).count i = (fiber path i).length := by
  rw [List.count, List.countP_map, List.countP_eq_length_filter, fiber, List.length_map]
  rfl

theorem fiber_cons_self (i j : ℕ) (path : List (ℕ × ℕ)) :
    fiber ((i, j) :: path) i = j :: fiber path i := by
  simp [fiber]

theorem fiber_cons_ne {p : ℕ × ℕ} {i : ℕ} (path : List (ℕ × ℕ)) (h : p.1 ≠ i) :
    fiber (p :: path) i = fiber path i := by
  simp [fiber, h]

/-- Once a path is past `i`, it has no point over `i`. -/
theorem fiber_eq_nil {p : ℕ × ℕ} {path : List (ℕ × ℕ)} {i : ℕ} (h : IsPath (p :: path))
    (hi : i < p.1) : fiber (p :: path) i = [] := by
  rw [fiber, List.map_eq_nil_iff, List.filter_eq_nil_iff]
  intro q hq
  have hle : p.1 ≤ q.1 := by
    rcases List.mem_cons.mp hq with rfl | hq
    · exact le_rfl
    · exact fst_le_of_mem h q hq
  simp only [decide_eq_true_eq]
  omega

/-- A fiber that starts the path is an interval from the path's first point. -/
theorem fiber_head_eq_range' {i j : ℕ} {path : List (ℕ × ℕ)} (h : IsPath ((i, j) :: path)) :
    fiber ((i, j) :: path) i = List.range' j (fiber ((i, j) :: path) i).length := by
  induction path generalizing j with
  | nil => simp [fiber]
  | cons q path ih =>
    rw [isPath_cons_cons] at h
    rw [fiber_cons_self]
    rcases h.1 with rfl | rfl | rfl
    · rw [fiber_eq_nil h.2 (Nat.lt_succ_self i)]; rfl
    · rw [fiber_eq_nil h.2 (Nat.lt_succ_self i)]; rfl
    · rw [List.length_cons, List.range'_succ, ← ih h.2]

/-- **Fibers are intervals.** -/
theorem fiber_eq_range' {path : List (ℕ × ℕ)} (h : IsPath path) (i : ℕ) :
    ∃ first, fiber path i = List.range' first (fiber path i).length := by
  induction path with
  | nil => exact ⟨0, rfl⟩
  | cons p path ih =>
    obtain ⟨i', j⟩ := p
    by_cases hi : i' = i
    · subst hi
      exact ⟨j, fiber_head_eq_range' h⟩
    · rw [fiber_cons_ne path hi]
      exact ih h.tail

/-- The points of a path, scaled by `step` on both axes. -/
def scaled (step : ℚ) (path : List (ℕ × ℕ)) : List (ℚ × ℚ) :=
  path.map fun p => (p.1 * step, p.2 * step)

/-- **A path as an interpolation.**  Interpolating through the scaled points of a path
reads, over one of its own first coordinates, the last point there. -/
theorem interp_scaled {path : List (ℕ × ℕ)} (h : IsPath path) {step : ℚ} (hstep : 0 < step)
    {i : ℕ} (hne : fiber path i ≠ []) :
    interp (i * step) (scaled step path) = (fiber path i).getLast hne * step := by
  induction path with
  | nil => exact absurd rfl hne
  | cons p path ih =>
    cases path with
    | nil =>
      obtain ⟨i', j⟩ := p
      by_cases hi : i' = i
      · subst hi; simp [scaled, fiber]
      · exact absurd (fiber_cons_ne [] hi) hne
    | cons q path =>
      have hpq : p.1 ≤ q.1 := (isPath_cons_cons.mp h).1.fst_le
      have htail : IsPath (q :: path) := h.tail
      by_cases hq : q.1 ≤ i
      · -- `q` is not past `i` yet: the last point over `i` is in the tail
        have hlast : fiber (p :: q :: path) i = fiber (q :: path) i ∨
            (p.1 = i ∧ fiber (q :: path) i ≠ []) := by
          by_cases hp : p.1 = i
          · refine Or.inr ⟨hp, ?_⟩
            obtain ⟨i', j⟩ := q
            have : i' = i := by simp only at hq hpq; omega
            subst this
            rw [fiber_cons_self]
            simp
          · exact Or.inl (fiber_cons_ne _ hp)
        have hskip : interp (i * step) (scaled step (p :: q :: path))
            = interp (i * step) (scaled step (q :: path)) := by
          apply interp_of_le
          exact mul_le_mul_of_nonneg_right (by exact_mod_cast hq) hstep.le
        rw [hskip]
        rcases hlast with heq | ⟨hp, hne'⟩
        · rw [ih htail (by rwa [heq] at hne)]
          simp only [heq]
        · rw [ih htail hne']
          obtain ⟨i', j⟩ := p
          simp only at hp
          subst hp
          simp only [fiber_cons_self, List.getLast_cons hne']
      · -- `q` is past `i`: `p` is the only point over `i`
        have hnil : fiber (q :: path) i = [] := fiber_eq_nil htail (by omega)
        obtain ⟨i', j⟩ := p
        by_cases hp : i' = i
        · subst hp
          simp only [fiber_cons_self, hnil, List.getLast_singleton]
          apply interp_of_le_of_lt
          · exact le_rfl
          · exact mul_lt_mul_of_pos_right (by exact_mod_cast not_le.mp hq) hstep
        · rw [fiber_cons_ne _ hp] at hne
          exact absurd hnil hne

/-- **Where a path enters the next first coordinate**: right after the last point over the
one before, with its first point there. -/
theorem exists_crossing {path : List (ℕ × ℕ)} (h : IsPath path) {i : ℕ}
    (hne : fiber path i ≠ []) (hnext : fiber path (i + 1) ≠ []) :
    ∃ j j' front back, path = front ++ (i, j) :: (i + 1, j') :: back ∧
      (∀ p ∈ front, p.1 ≤ i) ∧ UnitStep (i, j) (i + 1, j') ∧
      (fiber path i).getLast hne = j ∧ (fiber path (i + 1)).head hnext = j' := by
  induction path with
  | nil => exact absurd rfl hne
  | cons p path ih =>
    cases path with
    | nil =>
      obtain ⟨i', j⟩ := p
      by_cases hi : i' = i
      · exact absurd (fiber_cons_ne [] (show (i', j).1 ≠ i + 1 by dsimp only; omega)) hnext
      · exact absurd (fiber_cons_ne [] hi) hne
    | cons q path =>
      have hpq : UnitStep p q := (isPath_cons_cons.mp h).1
      have hle := hpq.fst_le
      by_cases hq : q.1 ≤ i
      · -- the crossing is in the tail
        have hfirst : fiber (p :: q :: path) (i + 1) = fiber (q :: path) (i + 1) :=
          fiber_cons_ne _ (by omega)
        have hne' : fiber (q :: path) i ≠ [] := by
          by_cases hpi : p.1 = i
          · obtain ⟨i', j⟩ := q
            obtain rfl : i' = i := by
              dsimp only at hq hle
              omega
            rw [fiber_cons_self]
            simp
          · rwa [fiber_cons_ne _ hpi] at hne
        have hlast : (fiber (p :: q :: path) i).getLast hne = (fiber (q :: path) i).getLast hne' := by
          by_cases hpi : p.1 = i
          · obtain ⟨i', j⟩ := p
            dsimp only at hpi
            subst hpi
            simp only [fiber_cons_self, List.getLast_cons hne']
          · simp only [fiber_cons_ne _ hpi]
        obtain ⟨j, j', front, back, hpath, hfront, hstep, hj, hj'⟩ :=
          ih h.tail hne' (hfirst ▸ hnext)
        refine ⟨j, j', p :: front, back, by rw [hpath, List.cons_append], ?_, hstep,
          hlast.trans hj, by simp only [hfirst, hj']⟩
        intro r hr
        rcases List.mem_cons.mp hr with rfl | hr
        · omega
        · exact hfront r hr
      · -- `p` is the last point over `i`, `q` the first over `i + 1`
        have hnil : fiber (q :: path) i = [] := fiber_eq_nil h.tail (by omega)
        obtain ⟨i', j⟩ := p
        obtain ⟨i'', j'⟩ := q
        obtain rfl : i' = i := by
          by_contra hi
          rw [fiber_cons_ne _ hi] at hne
          exact hne hnil
        obtain rfl : i'' = i' + 1 := by
          dsimp only at hq
          rcases hpq with heq | heq | heq <;> cases heq <;> omega
        have hp : (i', j).1 ≠ i' + 1 := by
          dsimp only
          omega
        refine ⟨j, j', [], path, rfl, by simp, hpq, ?_, ?_⟩
        · simp only [fiber_cons_self, hnil, List.getLast_singleton]
        · simp only [fiber_cons_ne _ hp, fiber_cons_self, List.head_cons]

/-- **Between two first coordinates**, the interpolation runs from the last point over the
one to the first point over the next, whatever the knots are. -/
theorem interp_knots_between {path : List (ℕ × ℕ)} (h : IsPath path) {X Y : ℕ → ℚ} {i : ℕ}
    (hne : fiber path i ≠ []) (hnext : fiber path (i + 1) ≠ []) {x : ℚ}
    (hbefore : ∀ k ≤ i, X k ≤ x) (hafter : x < X (i + 1)) :
    interp x (path.map fun p => (X p.1, Y p.2)) = Y ((fiber path i).getLast hne) +
      (x - X i) * ((Y ((fiber path (i + 1)).head hnext) - Y ((fiber path i).getLast hne)) /
        (X (i + 1) - X i)) := by
  obtain ⟨j, j', front, back, hpath, hfront, -, hj, hj'⟩ := exists_crossing h hne hnext
  rw [hj, hj', hpath]
  have hfront' : ∀ p ∈ front.map (fun p => (X p.1, Y p.2)), p.1 ≤ x := by
    intro p hp
    obtain ⟨q, hq, rfl⟩ := List.mem_map.mp hp
    exact hbefore q.1 (hfront q hq)
  have hlow : X i ≤ x := hbefore i le_rfl
  rw [List.map_append, List.map_cons, List.map_cons,
    interp_append_pair _ _ _ _ _ _ _ hfront' hlow hafter]
  split_ifs with hle
  · rw [le_antisymm hle hlow, sub_self, zero_mul, add_zero]
  · rfl

/-! ## The ends of a fiber -/

/-- The last element of a nonempty interval. -/
theorem getLast_eq_of_eq_range' {l : List ℕ} (hne : l ≠ []) {first n : ℕ}
    (h : l = List.range' first n) : l.getLast hne = first + (n - 1) := by
  subst h
  simp [List.getLast_eq_getElem]

/-- The second coordinate of the first point over `i`. -/
def firstAt (path : List (ℕ × ℕ)) (i : ℕ) : ℕ := (fiber path i).headD 0

/-- The second coordinate of the last point over `i`. -/
def lastAt (path : List (ℕ × ℕ)) (i : ℕ) : ℕ := (fiber path i).getLastD 0

theorem firstAt_eq {path : List (ℕ × ℕ)} {i : ℕ} (hne : fiber path i ≠ []) :
    firstAt path i = (fiber path i).head hne := by
  rw [firstAt, List.headD_eq_head?_getD, List.head?_eq_some_head hne]
  rfl

theorem lastAt_eq {path : List (ℕ × ℕ)} {i : ℕ} (hne : fiber path i ≠ []) :
    lastAt path i = (fiber path i).getLast hne := by
  rw [lastAt, List.getLastD_eq_getLast?, List.getLast?_eq_some_getLast hne]
  rfl

/-- A fiber runs upwards. -/
theorem firstAt_le_lastAt {path : List (ℕ × ℕ)} (h : IsPath path) (i : ℕ) :
    firstAt path i ≤ lastAt path i := by
  by_cases hne : fiber path i = []
  · simp [firstAt, lastAt, hne]
  · obtain ⟨first, hfirst⟩ := fiber_eq_range' h i
    obtain ⟨n, hn⟩ := Nat.exists_eq_succ_of_ne_zero fun h0 => hne (List.length_eq_zero_iff.mp h0)
    rw [lastAt_eq hne, getLast_eq_of_eq_range' hne hfirst, firstAt, hfirst, hn]
    exact Nat.le_add_right _ _

/-- The next fiber starts where this one ends or one further on. -/
theorem firstAt_succ {path : List (ℕ × ℕ)} (h : IsPath path) {i : ℕ}
    (hne : fiber path i ≠ []) (hnext : fiber path (i + 1) ≠ []) :
    lastAt path i ≤ firstAt path (i + 1) ∧ firstAt path (i + 1) ≤ lastAt path i + 1 := by
  obtain ⟨j, j', front, back, -, -, hstep, hj, hj'⟩ := exists_crossing h hne hnext
  rw [lastAt_eq hne, firstAt_eq hnext, hj, hj']
  rcases hstep with hstep | hstep | hstep <;> cases hstep <;> omega

/-- A point of the path `k` below the last one over its first coordinate exists exactly
when more than `k` points lie over that coordinate. -/
theorem exists_mem_add_eq_getLast_iff {path : List (ℕ × ℕ)} (h : IsPath path) {i : ℕ}
    (hne : fiber path i ≠ []) (k : ℕ) :
    (∃ j, (i, j) ∈ path ∧ (fiber path i).getLast hne = j + k) ↔
      k < (fiber path i).length := by
  obtain ⟨first, hfirst⟩ := fiber_eq_range' h i
  have hpos : 0 < (fiber path i).length := List.length_pos_iff.mpr hne
  have hlast : (fiber path i).getLast hne = first + ((fiber path i).length - 1) :=
    getLast_eq_of_eq_range' hne hfirst
  have hmem : ∀ j, (i, j) ∈ path ↔ first ≤ j ∧ j < first + (fiber path i).length := by
    intro j
    rw [← mem_fiber, hfirst, List.mem_range'_1, List.length_range']
  rw [hlast]
  constructor
  · rintro ⟨j, hj, heq⟩
    have := (hmem j).mp hj
    omega
  · intro hk
    exact ⟨first + ((fiber path i).length - 1) - k, (hmem _).mpr ⟨by omega, by omega⟩, by omega⟩

end LatticePath
