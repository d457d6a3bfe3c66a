/-
# Cheapest lattice paths

Lattice paths from the origin through allowed points only, weighed by a cost of their
points.  A function on the points is bounded by the weight of every path if it relaxes
every step (`le_weight`), and is the weight of a path along which every step is tight
(`eq_weight`).  Together they are the two halves of an optimality proof for a table of
least costs: the first for the table, the second for a backtrack through it.
-/
import VocalCoach.LatticePath
import Mathlib.Algebra.Order.Monoid.WithTop
import Mathlib.Algebra.BigOperators.Group.List.Basic
import Mathlib.Data.List.Induction

namespace LatticePath

/-- A path of unit steps from the origin to `p` that stays on allowed points. -/
structure PathTo (allowed : ℕ × ℕ → Prop) (p : ℕ × ℕ) (path : List (ℕ × ℕ)) : Prop where
  isPath : IsPath path
  head : path.head? = some (0, 0)
  last : path.getLast? = some p
  allowed : ∀ q ∈ path, allowed q

variable {K : Type*} [AddCommMonoid K]

/-- The summed cost of the points of a path. -/
def weight (w : ℕ × ℕ → K) (path : List (ℕ × ℕ)) : K := (path.map w).sum

theorem weight_concat (w : ℕ × ℕ → K) (path : List (ℕ × ℕ)) (p : ℕ × ℕ) :
    weight w (path ++ [p]) = weight w path + w p := by
  simp [weight]

variable {allowed : ℕ × ℕ → Prop} {p : ℕ × ℕ} {path : List (ℕ × ℕ)}

/-- A path is a single point at the origin, or a path and one more step. -/
theorem PathTo.cases_last (h : PathTo allowed p path) :
    (p = (0, 0) ∧ path = [(0, 0)]) ∨
      ∃ q front, path = front ++ [p] ∧ UnitStep q p ∧ PathTo allowed q front := by
  obtain ⟨front, rfl⟩ := List.getLast?_eq_some_iff.mp h.last
  rcases List.eq_nil_or_concat front with rfl | ⟨rest, q, hq⟩
  · obtain rfl : p = (0, 0) := by simpa using h.head
    exact Or.inl ⟨rfl, rfl⟩
  · rw [List.concat_eq_append] at hq
    have hchain : List.IsChain UnitStep (front ++ [p]) := h.isPath
    rw [List.isChain_append] at hchain
    obtain ⟨hfront, -, hstep⟩ := hchain
    have hlast : front.getLast? = some q := by rw [hq, List.getLast?_concat]
    refine Or.inr ⟨q, front, rfl, hstep q hlast p rfl, hfront, ?_, hlast, fun r hr => ?_⟩
    · have hne : front ≠ [] := by simp [hq]
      rw [← h.head, List.head?_append_of_ne_nil _ hne]
    · exact h.allowed r (List.mem_append_left _ hr)

/-- No point of a path is past its end. -/
theorem PathTo.le_last (h : PathTo allowed p path) : ∀ q ∈ path, q.1 ≤ p.1 ∧ q.2 ≤ p.2 := by
  induction path using List.reverseRecOn generalizing p with
  | nil => simp
  | append_singleton front last ih =>
    intro q hq
    rcases h.cases_last with ⟨rfl, hpath⟩ | ⟨r, front', hpath, hunit, hr⟩
    · rw [hpath, List.mem_singleton] at hq
      simp [hq]
    · obtain ⟨rfl, hlast⟩ := List.append_inj' hpath rfl
      rw [hpath, List.mem_append, List.mem_singleton] at hq
      rcases hq with hq | rfl
      · obtain ⟨hi, hj⟩ := ih hr q hq
        rcases hunit with rfl | rfl | rfl <;> dsimp only <;> omega
      · exact ⟨Nat.le_refl _, Nat.le_refl _⟩

/-- The end of a path is one of its points. -/
theorem PathTo.allowed_last (h : PathTo allowed p path) : allowed p :=
  h.allowed p (List.mem_of_getLast? h.last)

/-! ## The fibers of a path to a point -/

theorem fiber_append (path path' : List (ℕ × ℕ)) (i : ℕ) :
    fiber (path ++ path') i = fiber path i ++ fiber path' i := by
  simp [fiber]

/-- A path to a point passes over every first coordinate before it. -/
theorem PathTo.fiber_ne_nil (h : PathTo allowed p path) {i : ℕ} (hi : i ≤ p.1) :
    fiber path i ≠ [] := by
  induction path using List.reverseRecOn generalizing p with
  | nil => cases h.head
  | append_singleton front last ih =>
    by_cases heq : i = p.1
    · subst heq
      exact ne_nil_of_mem_fiber (List.mem_of_getLast? h.last)
    · rcases h.cases_last with ⟨rfl, -⟩ | ⟨q, front', hpath, hstep, hq⟩
      · exact absurd (Nat.le_zero.mp hi) heq
      · obtain ⟨rfl, -⟩ := List.append_inj' hpath rfl
        have hle : i ≤ q.1 := by
          rcases hstep with rfl | rfl | rfl <;> dsimp only at hi heq <;> omega
        rw [fiber_append]
        exact List.append_ne_nil_of_left_ne_nil (ih hq hle) _

/-- The path ends in its end. -/
theorem PathTo.lastAt_last (h : PathTo allowed p path) : lastAt path p.1 = p.2 := by
  obtain ⟨front, rfl⟩ := List.getLast?_eq_some_iff.mp h.last
  rw [lastAt, fiber_append, List.getLastD_eq_getLast?]
  simp [fiber]

variable {w : ℕ × ℕ → K} {cost : ℕ × ℕ → WithTop K}

/-- **The upper bound**: along a path all of whose steps are tight, the costs add up. -/
theorem eq_weight (hstart : cost (0, 0) = w (0, 0))
    (htight : path.IsChain fun q p => cost p = w p + cost q)
    (hhead : path.head? = some (0, 0)) (hlast : path.getLast? = some p) :
    cost p = weight w path := by
  induction path using List.reverseRecOn generalizing p with
  | nil => cases hhead
  | append_singleton front last ih =>
    obtain rfl : last = p := by simpa using hlast
    rw [List.isChain_append] at htight
    rcases List.eq_nil_or_concat front with rfl | ⟨rest, q, hq⟩
    · obtain rfl : last = (0, 0) := by simpa using hhead
      simpa [weight] using hstart
    · have hq' : front.getLast? = some q := by
        rw [hq, List.concat_eq_append, List.getLast?_concat]
      have hne : front ≠ [] := by simp [hq]
      have hfront := ih htight.1 (by rwa [List.head?_append_of_ne_nil _ hne] at hhead) hq'
      rw [htight.2.2 q hq' last rfl, hfront, weight_concat, WithTop.coe_add, add_comm]

variable [LinearOrder K] [IsOrderedAddMonoid K]

/-- **The lower bound**: what relaxes every step to an allowed point is no more than the
weight of any path. -/
theorem le_weight (hstart : allowed (0, 0) → cost (0, 0) ≤ w (0, 0))
    (hstep : ∀ q p, UnitStep q p → allowed q → allowed p → cost p ≤ w p + cost q)
    (h : PathTo allowed p path) : cost p ≤ weight w path := by
  induction path using List.reverseRecOn generalizing p with
  | nil => cases h.head
  | append_singleton front last ih =>
    rcases h.cases_last with ⟨rfl, hpath⟩ | ⟨q, front', hpath, hunit, hq⟩
    · rw [hpath]
      simpa [weight] using hstart h.allowed_last
    · obtain ⟨rfl, hlast⟩ := List.append_inj' hpath rfl
      calc cost p ≤ w p + cost q := hstep q p hunit hq.allowed_last h.allowed_last
        _ ≤ w p + weight w front := by gcongr; exact ih hq
        _ = weight w (front ++ [last]) := by
          rw [List.singleton_inj.mp hlast, weight_concat, WithTop.coe_add, add_comm]

end LatticePath
