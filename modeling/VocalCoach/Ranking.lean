/-
# Ranks in a list

The rank of an element of a list is the number of elements with a smaller key.  It does
not depend on the order of the list (`rank_perm`), it is strictly monotone in the key
(`rank_lt_rank`), and along a list sorted by distinct keys it counts up from zero, so a
labelling of the sorted list reads `1, 2, ..., n` exactly when every element carries its
rank plus one (`map_eq_range'_iff`).
-/
import Mathlib.Data.List.Perm.Basic
import Mathlib.Order.Lattice

namespace Ranking

variable {α K : Type*} [LinearOrder K] (key : α → K)

/-- The number of elements with a smaller key. -/
def rank (l : List α) (x : α) : ℕ := l.countP fun y => key y < key x

theorem rank_perm {l l' : List α} (h : l.Perm l') (x : α) : rank key l x = rank key l' x :=
  h.countP_eq _

/-- An element ranks below every element with a larger key. -/
theorem rank_lt_rank {l : List α} {x y : α} (hx : x ∈ l) (hlt : key x < key y) :
    rank key l x < rank key l y := by
  have hsub : (l.filter fun z => key z < key x).Sublist (l.filter fun z => key z < key y) := by
    apply List.monotone_filter_right
    intro z hz
    simp only [decide_eq_true_eq] at hz ⊢
    exact hz.trans hlt
  rw [rank, rank, List.countP_eq_length_filter, List.countP_eq_length_filter]
  refine Nat.lt_of_le_of_ne hsub.length_le fun hlen => ?_
  have hmem : x ∈ l.filter fun z => key z < key x := by
    rw [hsub.eq_of_length hlen]
    simp [hx, hlt]
  simp at hmem

/-- The head of a sorted list ranks first, the others one more than in the tail. -/
theorem rank_cons_of_lt {x y : α} {l : List α} (h : key x < key y) :
    rank key (x :: l) y = rank key l y + 1 := by
  rw [rank, List.countP_cons_of_pos (by simpa using h), rank]

theorem rank_head_of_sorted {x : α} {l : List α} (h : ∀ y ∈ l, key x < key y) :
    rank key (x :: l) x = 0 := by
  rw [rank, List.countP_eq_zero]
  intro y hy
  rcases List.mem_cons.mp hy with rfl | hy
  · simp
  · simpa using (h y hy).le

/-- **Counting up along a sorted list.**  Labels read `n + 1, n + 2, ...` along a list
sorted by distinct keys if and only if each is the rank of its element plus `n + 1`. -/
theorem map_eq_range'_iff {l : List α} (hsorted : l.Pairwise fun x y => key x < key y)
    (f : α → Option ℕ) (n : ℕ) :
    l.map f = (List.range' (n + 1) l.length).map some ↔
      ∀ x ∈ l, f x = some (rank key l x + n + 1) := by
  induction l generalizing n with
  | nil => simp
  | cons x l ih =>
    obtain ⟨hhead, htail⟩ := List.pairwise_cons.mp hsorted
    rw [List.map_cons, List.length_cons, List.range'_succ, List.map_cons, List.cons_eq_cons,
      ih htail, List.forall_mem_cons, rank_head_of_sorted key hhead, Nat.zero_add]
    refine and_congr_right fun _ => forall₂_congr fun y hy => ?_
    rw [rank_cons_of_lt key (hhead y hy), Nat.add_right_comm (rank key l y) 1 n, Nat.add_assoc _ n 1]

end Ranking
