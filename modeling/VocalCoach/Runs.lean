/-
# Maximal runs

The maximal runs of `true` in a list, as a library of its own.

`IsRun l a b`: the half-open interval from `a` to `b` is one.  `Spans l spans`: the intervals
are nonempty, in order, never adjacent, and cover exactly the positions that hold `true`.  The
two notions agree (`Spans.mem_iff`), and one scan with the start of the open run in hand lists
them (`spans_runs`).
-/
import Mathlib.Data.List.Pairwise
import Mathlib.Order.Nat
import Mathlib.Tactic.Common

namespace Runs

/-! ## Runs and spans -/

/-- `[a, b)` is a run of `true` that neither neighbour prolongs. -/
structure IsRun (l : List Bool) (a b : ℕ) : Prop where
  nonempty : a < b
  holds : ∀ i, a ≤ i → i < b → l[i]? = some true
  left : ∀ i, i + 1 = a → l[i]? ≠ some true
  right : l[b]? ≠ some true

/-- Nonempty half-open intervals, sorted and not even adjacent, that cover what holds. -/
structure Spans (l : List Bool) (spans : List (ℕ × ℕ)) : Prop where
  nonempty : ∀ s ∈ spans, s.1 < s.2
  apart : spans.Pairwise fun s t => s.2 < t.1
  covers : ∀ i, (∃ s ∈ spans, s.1 ≤ i ∧ i < s.2) ↔ l[i]? = some true

variable {l : List Bool}

/-- A position lies in one run at most. -/
theorem IsRun.unique {a b a' b' i : ℕ} (h : IsRun l a b) (h' : IsRun l a' b')
    (hi : a ≤ i ∧ i < b) (hi' : a' ≤ i ∧ i < b') : a = a' ∧ b = b' := by
  constructor
  · rcases Nat.lt_trichotomy a a' with hlt | heq | hgt
    · exact absurd (h.holds (a' - 1) (by omega) (by omega)) (h'.left (a' - 1) (by omega))
    · exact heq
    · exact absurd (h'.holds (a - 1) (by omega) (by omega)) (h.left (a - 1) (by omega))
  · rcases Nat.lt_trichotomy b b' with hlt | heq | hgt
    · exact absurd (h'.holds b (by omega) hlt) h.right
    · exact heq
    · exact absurd (h.holds b' (by omega) hgt) h'.right

/-- Two different intervals keep a position between them. -/
theorem Spans.between {spans : List (ℕ × ℕ)} (h : Spans l spans) {s t : ℕ × ℕ}
    (hs : s ∈ spans) (ht : t ∈ spans) : s = t ∨ s.2 < t.1 ∨ t.2 < s.1 := by
  by_cases heq : s = t
  · exact Or.inl heq
  · right
    have hsymm : Std.Symm fun s t : ℕ × ℕ => s.2 < t.1 ∨ t.2 < s.1 := ⟨fun _ _ => Or.symm⟩
    have hapart : spans.Pairwise fun s t : ℕ × ℕ => s.2 < t.1 ∨ t.2 < s.1 := h.apart.imp Or.inl
    exact hapart.forall hs ht heq

/-- Each interval is a run. -/
theorem Spans.isRun {spans : List (ℕ × ℕ)} (h : Spans l spans) {s : ℕ × ℕ} (hs : s ∈ spans) :
    IsRun l s.1 s.2 := by
  have hnonempty := h.nonempty s hs
  refine ⟨hnonempty, fun i hlow hhigh => (h.covers i).mp ⟨s, hs, hlow, hhigh⟩, ?_, ?_⟩
  · rintro i hi hprolongs
    obtain ⟨t, ht, hlow, hhigh⟩ := (h.covers i).mpr hprolongs
    rcases h.between hs ht with rfl | hbefore | hafter <;> omega
  · intro hprolongs
    obtain ⟨t, ht, hlow, hhigh⟩ := (h.covers s.2).mpr hprolongs
    rcases h.between hs ht with rfl | hbefore | hafter <;> omega

/-- **The intervals are the maximal runs**, and none is missing. -/
theorem Spans.mem_iff {spans : List (ℕ × ℕ)} (h : Spans l spans) {a b : ℕ} :
    (a, b) ∈ spans ↔ IsRun l a b := by
  constructor
  · exact fun hmem => h.isRun hmem
  · intro hrun
    obtain ⟨s, hs, hlow, hhigh⟩ := (h.covers a).mpr (hrun.holds a le_rfl hrun.nonempty)
    have hsame := hrun.unique (h.isRun hs) ⟨le_rfl, hrun.nonempty⟩ ⟨hlow, hhigh⟩
    have hpair : (a, b) = s := Prod.ext hsame.1 hsame.2
    rwa [hpair]

/-! ## One scan -/

/-- The runs from position `i` on, with the run open since `start`. -/
def scan (i : ℕ) (start : Option ℕ) : List Bool → List (ℕ × ℕ)
  | [] => start.toList.map fun s => (s, i)
  | true :: rest => scan (i + 1) (some (start.getD i)) rest
  | false :: rest => (start.toList.map fun s => (s, i)) ++ scan (i + 1) none rest

/-- The runs of a list. -/
def runs (l : List Bool) : List (ℕ × ℕ) := scan 0 none l

/-- The open run has begun before the position the scan has reached. -/
def Open (i : ℕ) (start : Option ℕ) : Prop := ∀ s ∈ start, s < i

theorem Open.closed (i : ℕ) : Open i none := nofun

theorem Open.some_getD {i : ℕ} {start : Option ℕ} (h : Open i start) :
    Open (i + 1) (some (start.getD i)) := by
  rintro s ⟨⟩
  cases start with
  | none => exact Nat.lt_succ_self i
  | some s => exact (h s rfl).trans (Nat.lt_succ_self i)

/-- What the scan lists is nonempty and begins where the open run does, or later. -/
theorem scan_bounds {i : ℕ} {start : Option ℕ} (h : Open i start) :
    ∀ s ∈ scan i start l, start.getD i ≤ s.1 ∧ s.1 < s.2 := by
  induction l generalizing i start with
  | nil =>
    cases start with
    | none => exact fun s hs => absurd hs List.not_mem_nil
    | some a =>
      intro s hs
      obtain rfl := List.mem_singleton.mp hs
      exact ⟨le_rfl, h a rfl⟩
  | cons v rest ih =>
    cases v with
    | true => exact ih h.some_getD
    | false =>
      intro s hs
      have hlater := ih (Open.closed (i + 1))
      cases start with
      | none =>
        obtain ⟨hfrom, hlt⟩ := hlater s hs
        rw [Option.getD_none] at hfrom ⊢
        exact ⟨by omega, hlt⟩
      | some a =>
        have ha := h a rfl
        rcases List.mem_cons.mp hs with rfl | hs
        · exact ⟨le_rfl, ha⟩
        · obtain ⟨hfrom, hlt⟩ := hlater s hs
          rw [Option.getD_none] at hfrom
          rw [Option.getD_some]
          exact ⟨by omega, hlt⟩

theorem scan_apart {i : ℕ} {start : Option ℕ} (h : Open i start) :
    (scan i start l).Pairwise fun s t => s.2 < t.1 := by
  induction l generalizing i start with
  | nil => cases start <;> simp [scan]
  | cons v rest ih =>
    cases v with
    | true => exact ih h.some_getD
    | false =>
      have hlater := ih (Open.closed (i + 1))
      cases start with
      | none => exact hlater
      | some a =>
        refine List.pairwise_cons.mpr ⟨fun t ht => ?_, hlater⟩
        have hfrom := (scan_bounds (Open.closed (i + 1)) t ht).1
        rw [Option.getD_none] at hfrom
        show i < t.1
        omega

/-- What holds from a position on: there, or from the next one on. -/
theorem holds_from_iff (i j : ℕ) (v : Bool) (rest : List Bool) :
    (i ≤ j ∧ (v :: rest)[j - i]? = some true) ↔
      (j = i ∧ v = true) ∨ (i + 1 ≤ j ∧ rest[j - (i + 1)]? = some true) := by
  rcases Nat.lt_trichotomy j i with hlt | rfl | hgt
  · constructor
    · rintro ⟨hle, -⟩
      omega
    · rintro (⟨heq, -⟩ | ⟨hle, -⟩) <;> omega
  · rw [Nat.sub_self, List.getElem?_cons_zero, Option.some.injEq]
    constructor
    · exact fun hthere => Or.inl ⟨rfl, hthere.2⟩
    · rintro (⟨-, hthere⟩ | ⟨hle, -⟩)
      · exact ⟨le_rfl, hthere⟩
      · omega
  · obtain ⟨d, rfl⟩ : ∃ d, j = i + 1 + d := ⟨j - (i + 1), by omega⟩
    have hindex : i + 1 + d - i = d + 1 := by omega
    have hindex' : i + 1 + d - (i + 1) = d := by omega
    rw [hindex, hindex', List.getElem?_cons_succ]
    constructor
    · rintro ⟨-, hthere⟩
      exact Or.inr ⟨by omega, hthere⟩
    · rintro (⟨heq, -⟩ | ⟨-, hthere⟩)
      · omega
      · exact ⟨by omega, hthere⟩

/-- The scan covers the open run and what holds from its position on. -/
theorem scan_covers {i : ℕ} {start : Option ℕ} (h : Open i start) (j : ℕ) :
    (∃ s ∈ scan i start l, s.1 ≤ j ∧ j < s.2) ↔
      (start.getD i ≤ j ∧ j < i) ∨ (i ≤ j ∧ l[j - i]? = some true) := by
  induction l generalizing i start with
  | nil =>
    cases start with
    | none =>
      simp only [scan, Option.toList_none, List.map_nil, List.not_mem_nil, false_and, exists_false,
        Option.getD_none, List.getElem?_nil, false_iff]
      rintro (⟨hlow, hhigh⟩ | ⟨-, hnone⟩)
      · omega
      · cases hnone
    | some a => simp [scan]
  | cons v rest ih =>
    rw [holds_from_iff]
    cases v with
    | true =>
      -- the open run goes on, or one opens here
      rw [scan, ih h.some_getD, Option.getD_some]
      have hopen : start.getD i ≤ i := by
        cases start with
        | none => exact le_rfl
        | some a => exact (h a rfl).le
      constructor
      · rintro (⟨hlow, hhigh⟩ | hlater)
        · by_cases heq : j = i
          · exact Or.inr (Or.inl ⟨heq, rfl⟩)
          · exact Or.inl ⟨hlow, by omega⟩
        · exact Or.inr (Or.inr hlater)
      · rintro (⟨hlow, hhigh⟩ | ⟨rfl, -⟩ | hlater)
        · exact Or.inl ⟨hlow, by omega⟩
        · exact Or.inl ⟨hopen, by omega⟩
        · exact Or.inr hlater
    | false =>
      -- the open run, if there is one, ends before this position
      have hlater := ih (Open.closed (i + 1))
      rw [Option.getD_none] at hlater
      cases start with
      | none =>
        rw [scan, Option.toList_none, List.map_nil, List.nil_append, hlater, Option.getD_none]
        simp only [Bool.false_eq_true, and_false, false_or]
        constructor
        · rintro (⟨hlow, hhigh⟩ | hthere)
          · omega
          · exact Or.inr hthere
        · rintro (⟨hlow, hhigh⟩ | hthere)
          · omega
          · exact Or.inr hthere
      | some a =>
        rw [scan, Option.toList_some, List.map_singleton, List.singleton_append, Option.getD_some]
        simp only [List.mem_cons, exists_eq_or_imp, hlater, Bool.false_eq_true, and_false, false_or]
        constructor
        · rintro (hfirst | ⟨hlow, hhigh⟩ | hthere)
          · exact Or.inl hfirst
          · omega
          · exact Or.inr hthere
        · rintro (hfirst | hthere)
          · exact Or.inl hfirst
          · exact Or.inr (Or.inr hthere)

/-- **The scan lists the maximal runs.** -/
theorem spans_runs (l : List Bool) : Spans l (runs l) where
  nonempty s hs := (scan_bounds (Open.closed 0) s hs).2
  apart := scan_apart (Open.closed 0)
  covers i := by
    rw [runs, scan_covers (Open.closed 0), Option.getD_none, Nat.sub_zero]
    constructor
    · rintro (⟨-, hneg⟩ | ⟨-, hthere⟩)
      · omega
      · exact hthere
    · exact fun hthere => Or.inr ⟨Nat.zero_le i, hthere⟩

end Runs
