/-
# Sorted sets that expire

Keys of which each holds a sorted set, members with their scores: `ZCARD`, `ZADD` with
`EXPIRE`, `ZREMRANGEBYSCORE`, and the lowest score.  A key that has expired holds the empty
set, so that a set only ever loses members unless one is added (`sorted_sublist`).
-/
import VocalCoach.ExpiringKeys
import Mathlib.Data.List.MinMax

namespace ExpiringKeys

/-- Members with their scores. -/
abbrev SortedSet (ι : Type*) := List (ι × ℕ)

namespace SortedSet

variable {ι : Type*} (s : SortedSet ι)

/-- `ZADD`: a member that is there already takes the new score. -/
def zadd [DecidableEq ι] (x : ι) (score : ℕ) : SortedSet ι :=
  (x, score) :: s.filter fun m => m.1 ≠ x

/-- `ZREMRANGEBYSCORE`. -/
def zremrangebyscore (low high : ℤ) : SortedSet ι :=
  s.filter fun m => ¬ (low ≤ m.2 ∧ (m.2 : ℤ) ≤ high)

/-- `ZRANGE 0 0 WITHSCORES`, for the score alone. -/
def lowest : Option ℕ := (s.map Prod.snd).min?

variable {s}

theorem length_zadd_le [DecidableEq ι] (x : ι) (score : ℕ) :
    (s.zadd x score).length ≤ s.length + 1 := by
  unfold zadd
  rw [List.length_cons]
  exact Nat.add_le_add_right (List.length_filter_le _ _) 1

/-- The lowest score is none only where there is no member. -/
theorem lowest_eq_none : s.lowest = none ↔ s = [] := by
  unfold lowest
  rw [List.min?_eq_none_iff, List.map_eq_nil_iff]

/-- The lowest score is that of a member. -/
theorem exists_of_lowest {score : ℕ} (h : s.lowest = some score) : ∃ m ∈ s, m.2 = score :=
  List.mem_map.mp (List.min?_mem h)

end SortedSet

namespace Keys

variable {κ ι : Type*} [DecidableEq κ] (m : Keys κ (SortedSet ι)) (now : ℕ)

/-- The sorted set of a key. -/
def sorted (k : κ) : SortedSet ι := (m.get now k).getD []

/-- `ZREMRANGEBYSCORE k`, which leaves the key its time. -/
def zremrangebyscore (k : κ) (low high : ℤ) : Keys κ (SortedSet ι) :=
  Function.update m k ((m k).map fun t => { t with value := t.value.zremrangebyscore low high })

/-- `ZADD k` and `EXPIRE k`. -/
def zadd [DecidableEq ι] (k : κ) (x : ι) (score expiresAt : ℕ) : Keys κ (SortedSet ι) :=
  m.set k ((m.sorted now k).zadd x score) expiresAt

variable {m now}

omit [DecidableEq κ] in
theorem sorted_eq {k : κ} {t : Timed (SortedSet ι)} (h : m k = some t) :
    m.sorted now k = if now < t.expiresAt then t.value else [] := by
  unfold sorted get
  rw [h, Option.bind_some]
  split_ifs <;> rfl

omit [DecidableEq κ] in
theorem sorted_of_missing {k : κ} (h : m k = none) : m.sorted now k = [] := by
  unfold sorted get
  rw [h]
  rfl

omit [DecidableEq κ] in
/-- **Time takes members away**, all at once. -/
theorem sorted_sublist {now' : ℕ} (h : now ≤ now') (k : κ) :
    (m.sorted now' k).Sublist (m.sorted now k) := by
  cases hk : m k with
  | none =>
    rw [sorted_of_missing hk]
    exact List.nil_sublist _
  | some t =>
    rw [sorted_eq hk, sorted_eq hk]
    by_cases hlive : now' < t.expiresAt
    · rw [if_pos hlive, if_pos (by omega)]
    · rw [if_neg hlive]
      exact List.nil_sublist _

theorem sorted_zremrangebyscore_self (k : κ) (low high : ℤ) :
    (m.zremrangebyscore k low high).sorted now k
      = (m.sorted now k).zremrangebyscore low high := by
  cases hk : m k with
  | none =>
    have hnone : m.zremrangebyscore k low high k = none := by
      unfold zremrangebyscore
      rw [Function.update_self, hk]
      rfl
    rw [sorted_of_missing hnone, sorted_of_missing hk]
    rfl
  | some t =>
    have hsome : m.zremrangebyscore k low high k
        = some { t with value := t.value.zremrangebyscore low high } := by
      unfold zremrangebyscore
      rw [Function.update_self, hk]
      rfl
    rw [sorted_eq hsome, sorted_eq hk]
    split_ifs <;> rfl

theorem sorted_zremrangebyscore_of_ne {k k' : κ} (h : k' ≠ k) (low high : ℤ) :
    (m.zremrangebyscore k low high).sorted now k' = m.sorted now k' := by
  unfold sorted get zremrangebyscore
  rw [Function.update_of_ne h]

/-- Members go, and none comes. -/
theorem sorted_zremrangebyscore_sublist (k k' : κ) (low high : ℤ) :
    ((m.zremrangebyscore k low high).sorted now k').Sublist (m.sorted now k') := by
  by_cases hk : k' = k
  · subst hk
    rw [sorted_zremrangebyscore_self]
    exact List.filter_sublist
  · rw [sorted_zremrangebyscore_of_ne hk]

variable [DecidableEq ι]

/-- One member comes at most. -/
theorem length_sorted_zadd_le (m : Keys κ (SortedSet ι)) (now : ℕ) (k : κ) (x : ι) (score expiresAt : ℕ) :
    ((m.zadd now k x score expiresAt).sorted now k).length ≤ (m.sorted now k).length + 1 := by
  unfold zadd
  rw [sorted_eq (set_self ..)]
  split_ifs
  · exact SortedSet.length_zadd_le x score
  · exact Nat.zero_le _

theorem sorted_zadd_of_ne {k k' : κ} (h : k' ≠ k) (x : ι) (score expiresAt : ℕ) :
    (m.zadd now k x score expiresAt).sorted now k' = m.sorted now k' := by
  unfold sorted get zadd
  rw [set_of_ne h]

end Keys

end ExpiringKeys
