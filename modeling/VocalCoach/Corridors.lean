/-
# Lattice paths in a corridor

A corridor allows one interval of second coordinates over every first one.  If its lower
bound never goes back, a lattice path from the origin reaches its far end if and only if
the corridor starts at the origin and the lower bound never jumps past the upper bound by
more than one (`reachable_corridor_iff`): a path can only fall behind by the width of
the corridor, and keeping to the lower bound it never does.
-/
import VocalCoach.LatticeCosts

namespace LatticePath

/-! ## Reachable points -/

/-- Some path on allowed points ends there. -/
def Reachable (allowed : ℕ × ℕ → Prop) (p : ℕ × ℕ) : Prop := ∃ path, PathTo allowed p path

variable {allowed : ℕ × ℕ → Prop} {p q : ℕ × ℕ}

theorem reachable_origin (h : allowed (0, 0)) : Reachable allowed (0, 0) :=
  ⟨[(0, 0)], List.isChain_singleton _, rfl, rfl, by simpa using h⟩

theorem Reachable.step (h : Reachable allowed q) (hstep : UnitStep q p) (hp : allowed p) :
    Reachable allowed p := by
  obtain ⟨path, hpath⟩ := h
  have hne : path ≠ [] := List.ne_nil_of_mem (List.mem_of_getLast? hpath.last)
  refine ⟨path ++ [p], ?_, ?_, List.getLast?_concat, ?_⟩
  · refine List.isChain_append.mpr ⟨hpath.isPath, List.isChain_singleton _, ?_⟩
    intro x hx y hy
    obtain rfl : q = x := Option.some.inj (hpath.last.symm.trans hx)
    obtain rfl : p = y := by simpa using hy
    exact hstep
  · rw [List.head?_append_of_ne_nil _ hne, hpath.head]
  · intro r hr
    rcases List.mem_append.mp hr with hr | hr
    · exact hpath.allowed r hr
    · rwa [List.mem_singleton.mp hr]

/-- Steps along one first coordinate. -/
theorem Reachable.along {i j j' : ℕ} (h : Reachable allowed (i, j)) (hle : j ≤ j')
    (hall : ∀ t, j < t → t ≤ j' → allowed (i, t)) : Reachable allowed (i, j') := by
  induction j', hle using Nat.le_induction with
  | base => exact h
  | succ j' hle ih =>
    refine (ih fun t hlt ht => hall t hlt (by omega)).step (Or.inr (Or.inr rfl)) ?_
    exact hall (j' + 1) (by omega) (Nat.le_refl _)

/-! ## Corridors -/

/-- The points between a lower and an upper bound of their second coordinate. -/
def InCorridor (lower upper : ℕ → ℤ) (p : ℕ × ℕ) : Prop := lower p.1 ≤ p.2 ∧ p.2 ≤ upper p.1

variable {lower upper : ℕ → ℤ}

/-- A path enters every first coordinate from the one before. -/
theorem PathTo.lower_le {path : List (ℕ × ℕ)} (h : PathTo (InCorridor lower upper) p path) :
    ∀ i < p.1, lower (i + 1) ≤ upper i + 1 := by
  induction path using List.reverseRecOn generalizing p with
  | nil => cases h.head
  | append_singleton front last ih =>
    intro i hi
    rcases h.cases_last with ⟨rfl, -⟩ | ⟨r, front', hpath, hstep, hr⟩
    · cases hi
    · obtain ⟨rfl, -⟩ := List.append_inj' hpath rfl
      by_cases hir : i < r.1
      · exact ih hr i hir
      · -- the last step enters `i + 1`
        have hlower := h.allowed_last.1
        have hupper := hr.allowed_last.2
        have hle : p.1 = i + 1 ∧ r.1 = i ∧ p.2 ≤ r.2 + 1 := by
          rcases hstep with rfl | rfl | rfl <;> dsimp only at hi hir ⊢ <;> omega
        obtain ⟨hp, hr, hle⟩ := hle
        rw [hp] at hlower
        rw [hr] at hupper
        omega

/-- **When a corridor can be walked.** -/
theorem reachable_corridor_iff {k j : ℕ} (hmono : ∀ i < k, lower i ≤ lower (i + 1))
    (hopen : ∀ i ≤ k, lower i ≤ upper i ∧ 0 ≤ upper i) (hj : InCorridor lower upper (k, j)) :
    Reachable (InCorridor lower upper) (k, j) ↔
      lower 0 ≤ 0 ∧ ∀ i < k, lower (i + 1) ≤ upper i + 1 := by
  constructor
  · rintro ⟨path, hpath⟩
    refine ⟨?_, hpath.lower_le⟩
    exact (hpath.allowed _ (List.mem_of_head? hpath.head)).1
  · rintro ⟨hstart, hjump⟩
    -- the path that keeps to the lower bound
    have hkeep : ∀ i ≤ k, Reachable (InCorridor lower upper) (i, (max 0 (lower i)).toNat) := by
      intro i hi
      induction i with
      | zero =>
        have hzero : (max 0 (lower 0)).toNat = 0 := by omega
        rw [hzero]
        exact reachable_origin ⟨by exact_mod_cast hstart, by exact_mod_cast (hopen 0 hi).2⟩
      | succ i ih =>
        have hreach := ih (by omega)
        have hstep := hmono i (by omega)
        have hbound := hjump i (by omega)
        obtain ⟨hopen₁, hopen₂⟩ := hopen (i + 1) hi
        by_cases heq : max 0 (lower (i + 1)) = max 0 (lower i)
        · refine hreach.step (Or.inr (Or.inl (by rw [heq]))) ⟨?_, ?_⟩ <;> dsimp only <;> omega
        · have halong : Reachable (InCorridor lower upper)
              (i, (max 0 (lower (i + 1))).toNat - 1) := by
            refine hreach.along (by omega) fun t hlt ht => ⟨?_, ?_⟩ <;> dsimp only <;> omega
          refine halong.step (Or.inl ?_) ⟨?_, ?_⟩
          · rw [Nat.sub_add_cancel (by omega)]
          · dsimp only
            omega
          · dsimp only
            omega
    refine (hkeep k (Nat.le_refl _)).along ?_ fun t hlt ht => ⟨?_, ?_⟩
    · have hlow := hj.1
      dsimp only at hlow
      omega
    · dsimp only
      omega
    · have hup := hj.2
      dsimp only at hup ⊢
      omega

end LatticePath
