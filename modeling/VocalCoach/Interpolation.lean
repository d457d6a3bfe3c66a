/-
# Piecewise-linear interpolation and half-even rounding

Two numeric primitives in exact arithmetic, over any linearly ordered field.

* `interp x pts` is the piecewise-linear interpolation through the knots `pts`,
  abscissae in nondecreasing order, clamped to the first and last ordinate
  outside the covered range.  Where an abscissa repeats, the last of its knots
  counts.
* `roundHalfEven` rounds to the nearest integer, ties to the even one.

`interp_append_pair` evaluates an interpolation between two of its knots; where the knots rise
in both coordinates, so does the interpolation (`interp_mono`).
-/
import Mathlib.Algebra.Order.Field.Basic
import Mathlib.Data.Rat.Floor
import Mathlib.Tactic.Linarith
import Mathlib.Tactic.Ring

namespace Interpolation

section Interp

variable {K : Type*} [Field K] [LinearOrder K]

/-- Piecewise-linear interpolation through knots `(abscissa, ordinate)`. -/
def interp (x : K) : List (K × K) → K
  | [] => 0
  | [(_, b)] => b
  | (a, b) :: (c, d) :: rest =>
      if c ≤ x then interp x ((c, d) :: rest)
      else if x ≤ a then b
      else b + (x - a) * ((d - b) / (c - a))

@[simp] theorem interp_singleton (x a b : K) : interp x [(a, b)] = b := rfl

theorem interp_of_le (x a b c d : K) (rest : List (K × K)) (h : c ≤ x) :
    interp x ((a, b) :: (c, d) :: rest) = interp x ((c, d) :: rest) := by
  rw [interp, if_pos h]

theorem interp_of_le_of_lt (x a b c d : K) (rest : List (K × K)) (hx : x ≤ a) (h : x < c) :
    interp x ((a, b) :: (c, d) :: rest) = b := by
  rw [interp, if_neg (not_le.mpr h), if_pos hx]

/-- **Interpolation between two knots.**  With every earlier abscissa at most `x`, and `x`
before the abscissa `c`, the interpolation is that of the two knots around `x`. -/
theorem interp_append_pair (x a b c d : K) (before after : List (K × K))
    (hbefore : ∀ p ∈ before, p.1 ≤ x) (ha : a ≤ x) (hc : x < c) :
    interp x (before ++ (a, b) :: (c, d) :: after) =
      if x ≤ a then b else b + (x - a) * ((d - b) / (c - a)) := by
  induction before with
  | nil => rw [List.nil_append, interp, if_neg (not_le.mpr hc)]
  | cons p before ih =>
    have ih := ih fun q hq => hbefore q (List.mem_cons_of_mem p hq)
    cases before with
    | nil => exact (interp_of_le x p.1 p.2 a b _ ha).trans ih
    | cons q before =>
      exact (interp_of_le x p.1 p.2 q.1 q.2 _ (hbefore q (by simp))).trans ih

/-- **Clamping on the right**: past every knot, the interpolation is the last ordinate. -/
theorem interp_of_forall_le {x : K} {pts : List (K × K)} {last : K × K}
    (hlast : pts.getLast? = some last) (hall : ∀ p ∈ pts, p.1 ≤ x) : interp x pts = last.2 := by
  induction pts with
  | nil => cases hlast
  | cons p pts ih =>
    cases pts with
    | nil =>
      obtain rfl : p = last := by simpa using hlast
      rfl
    | cons q pts =>
      rw [interp_of_le x p.1 p.2 q.1 q.2 pts (hall q (by simp))]
      exact ih (by simpa using hlast) fun r hr => hall r (List.mem_cons_of_mem p hr)

/-- **Knots on the identity** interpolate to it, from the first abscissa to the last. -/
theorem interp_identity {x : K} {pts : List (K × K)} {first last : K × K}
    (hid : ∀ p ∈ pts, p.2 = p.1) (hfirst : pts.head? = some first)
    (hlast : pts.getLast? = some last) (hlow : first.1 ≤ x) (hhigh : x ≤ last.1) :
    interp x pts = x := by
  induction pts generalizing first with
  | nil => cases hfirst
  | cons p pts ih =>
    obtain rfl : p = first := Option.some.inj hfirst
    have hp := hid p List.mem_cons_self
    cases pts with
    | nil =>
      obtain rfl : p = last := by simpa using hlast
      rw [interp_singleton, hp]
      exact le_antisymm hlow hhigh
    | cons q pts =>
      have hq := hid q (List.mem_cons_of_mem p List.mem_cons_self)
      rw [interp]
      split_ifs with hnext hbefore
      · exact ih (fun r hr => hid r (List.mem_cons_of_mem p hr)) rfl
          (by rwa [List.getLast?_cons_cons] at hlast) hnext
      · rw [hp]
        exact le_antisymm hlow hbefore
      · -- strictly between two knots: the slope is one
        have hgap : q.1 - p.1 ≠ 0 := by
          intro heq
          rw [sub_eq_zero.mp heq] at hnext
          exact hnext hlow
        rw [hp, hq, div_self hgap]
        ring

end Interp

/-! ## Knots that rise -/

section Rising

variable {K : Type*} [Field K] [LinearOrder K]

/-- The interpolation between two knots. -/
def piece (x a b c d : K) : K := if x ≤ a then b else b + (x - a) * ((d - b) / (c - a))

theorem interp_cons_cons (x a b c d : K) (rest : List (K × K)) :
    interp x ((a, b) :: (c, d) :: rest) =
      if c ≤ x then interp x ((c, d) :: rest) else piece x a b c d := by
  rw [interp, piece]

variable [IsStrictOrderedRing K] {x y a b c d : K}

/-- Between two knots the interpolation stays between their ordinates. -/
theorem piece_between (hrise : b ≤ d) (hx : x < c) : b ≤ piece x a b c d ∧ piece x a b c d ≤ d := by
  unfold piece
  split_ifs with hle
  · exact ⟨le_rfl, hrise⟩
  · have hfrom : 0 < x - a := sub_pos.mpr (not_le.mp hle)
    have hto : x - a ≤ c - a := by linarith
    have hslope : 0 ≤ (d - b) / (c - a) :=
      div_nonneg (sub_nonneg.mpr hrise) (hfrom.le.trans hto)
    have hfull : (c - a) * ((d - b) / (c - a)) = d - b :=
      mul_div_cancel₀ _ (hfrom.trans_le hto).ne'
    have hlow : 0 ≤ (x - a) * ((d - b) / (c - a)) := mul_nonneg hfrom.le hslope
    have hhigh : (x - a) * ((d - b) / (c - a)) ≤ (c - a) * ((d - b) / (c - a)) :=
      mul_le_mul_of_nonneg_right hto hslope
    constructor <;> linarith

theorem piece_mono (hrise : b ≤ d) (hxy : x ≤ y) (hy : y < c) :
    piece x a b c d ≤ piece y a b c d := by
  by_cases hx : x ≤ a
  · have hb : piece x a b c d = b := if_pos hx
    rw [hb]
    exact (piece_between hrise hy).1
  · have hya : ¬ y ≤ a := fun h => hx (hxy.trans h)
    have hslope : 0 ≤ (d - b) / (c - a) :=
      div_nonneg (sub_nonneg.mpr hrise) (by linarith [not_le.mp hya])
    rw [piece, piece, if_neg hx, if_neg hya]
    have hsteps := mul_le_mul_of_nonneg_right (sub_le_sub_right hxy a) hslope
    linarith

/-- **The interpolation stays between the first ordinate and the last**, where the knots rise
in both coordinates. -/
theorem interp_between {p last : K × K} {pts : List (K × K)}
    (hrise : (p :: pts).Pairwise (· ≤ ·)) (hlast : (p :: pts).getLast? = some last) (x : K) :
    p.2 ≤ interp x (p :: pts) ∧ interp x (p :: pts) ≤ last.2 := by
  induction pts generalizing p with
  | nil =>
    obtain rfl : p = last := by simpa using hlast
    exact ⟨le_rfl, le_rfl⟩
  | cons q pts ih =>
    rw [List.pairwise_cons] at hrise
    have hpq : p.2 ≤ q.2 := (hrise.1 q List.mem_cons_self).2
    rw [List.getLast?_cons_cons] at hlast
    obtain ⟨hfirst, hend⟩ := ih hrise.2 hlast
    rw [interp_cons_cons]
    split_ifs with hq
    · exact ⟨hpq.trans hfirst, hend⟩
    · obtain ⟨hlow, hhigh⟩ := @piece_between K _ _ _ x p.1 _ _ _ hpq (not_le.mp hq)
      exact ⟨hlow, hhigh.trans (hfirst.trans hend)⟩

/-- **The interpolation is monotone**, where the knots rise in both coordinates: a jump over a
repeated abscissa goes up, too. -/
theorem interp_mono {pts : List (K × K)} (hrise : pts.Pairwise (· ≤ ·)) :
    Monotone fun x => interp x pts := by
  intro x y hxy
  show interp x pts ≤ interp y pts
  induction pts with
  | nil => exact le_rfl
  | cons p pts ih =>
    rw [List.pairwise_cons] at hrise
    cases pts with
    | nil => exact le_rfl
    | cons q pts =>
      have hpq : p.2 ≤ q.2 := (hrise.1 q List.mem_cons_self).2
      rw [interp_cons_cons, interp_cons_cons]
      by_cases hx : q.1 ≤ x
      · rw [if_pos hx, if_pos (hx.trans hxy)]
        exact ih hrise.2
      · rw [if_neg hx]
        have hpiece := (@piece_between K _ _ _ x p.1 _ _ _ hpq (not_le.mp hx)).2
        by_cases hy : q.1 ≤ y
        · -- `y` is past the knot, `x` before it
          obtain ⟨last, hlast⟩ := Option.ne_none_iff_exists'.mp
            (mt List.getLast?_eq_none_iff.mp (List.cons_ne_nil q pts))
          rw [if_pos hy]
          exact hpiece.trans (interp_between hrise.2 hlast y).1
        · rw [if_neg hy]
          exact piece_mono hpq hxy (not_le.mp hy)

end Rising

/-! ## Rounding -/

/-- Round to the nearest integer, ties to even. -/
def roundHalfEven (x : ℚ) : ℤ :=
  let below := ⌊x⌋
  let rest := x - below
  if rest < 1 / 2 then below
  else if 1 / 2 < rest then below + 1
  else if below % 2 = 0 then below else below + 1

@[simp] theorem roundHalfEven_intCast (n : ℤ) : roundHalfEven n = n := by
  simp [roundHalfEven]

@[simp] theorem roundHalfEven_natCast (n : ℕ) : roundHalfEven n = n := by
  exact_mod_cast roundHalfEven_intCast n

/-- Round to one decimal place, ties to even. -/
def roundTenth (x : ℚ) : ℚ := roundHalfEven (x * 10) / 10

/-- Rounding moves a number by at most one half. -/
theorem abs_roundHalfEven_sub_le (x : ℚ) : |(roundHalfEven x : ℚ) - x| ≤ 1 / 2 := by
  have hlow := Int.floor_le x
  have hhigh := Int.lt_floor_add_one x
  unfold roundHalfEven
  dsimp only
  rw [abs_le]
  split_ifs <;> push_cast <;> constructor <;> linarith

/-- Rounding keeps the order. -/
theorem roundHalfEven_mono {x y : ℚ} (h : x ≤ y) : roundHalfEven x ≤ roundHalfEven y := by
  have hx := Int.floor_le x
  have hy := Int.lt_floor_add_one y
  have hfloor := Int.floor_mono h
  unfold roundHalfEven
  dsimp only
  rcases hfloor.lt_or_eq with hlt | heq
  · -- one integer lies between the two floors
    split_ifs <;> omega
  · rw [heq]
    have hle : x - ⌊y⌋ ≤ y - ⌊y⌋ := by linarith
    split_ifs <;> first | omega | (exfalso; linarith)

end Interpolation
