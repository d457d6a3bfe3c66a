/-
# Keys that expire

A store of keys, each with a value and the time from which it is gone, as Redis keeps them
for `GET`, `SET ... EX`, `DEL`, and `SADD` with `EXPIRE` on a set.  A key that has expired
reads as missing; a set that has expired starts anew.
-/
import Mathlib.Data.Nat.Notation
import Mathlib.Logic.Function.Basic

namespace ExpiringKeys

variable {κ ν : Type*} [DecidableEq κ]

/-- A value and the time from which it is gone. -/
structure Timed (ν : Type*) where
  value : ν
  expiresAt : ℕ
  deriving DecidableEq, Repr

/-- The keys of one kind.  A key that has expired may still be here. -/
abbrev Keys (κ ν : Type*) := κ → Option (Timed ν)

namespace Keys

variable (m : Keys κ ν) (now : ℕ)

/-- `GET`. -/
def get (k : κ) : Option ν := (m k).bind fun t => if now < t.expiresAt then some t.value else none

/-- `SET k v`, to expire at a time. -/
def set (k : κ) (v : ν) (expiresAt : ℕ) : Keys κ ν := Function.update m k (some ⟨v, expiresAt⟩)

/-- `DEL`. -/
def del (k : κ) : Keys κ ν := Function.update m k none

/-- `DEL` of many keys. -/
def delAll (ks : List κ) : Keys κ ν := fun k => if k ∈ ks then none else m k

variable {m now}

omit [DecidableEq κ] in
/-- A key is read if and only if it is there and has not expired. -/
theorem get_eq_some {k : κ} {v : ν} :
    m.get now k = some v ↔ ∃ t, m k = some t ∧ now < t.expiresAt ∧ t.value = v := by
  unfold get
  constructor
  · intro h
    obtain ⟨t, ht, hv⟩ := Option.bind_eq_some_iff.mp h
    rw [Option.ite_none_right_eq_some] at hv
    exact ⟨t, ht, hv.1, Option.some.inj hv.2⟩
  · rintro ⟨t, ht, hlt, rfl⟩
    rw [ht, Option.bind_some, if_pos hlt]

omit [DecidableEq κ] in
/-- A key that does not read is missing or has expired. -/
theorem get_eq_none {k : κ} :
    m.get now k = none ↔ ∀ t, m k = some t → t.expiresAt ≤ now := by
  unfold get
  constructor
  · intro h t ht
    rw [ht, Option.bind_some] at h
    by_contra hnot
    rw [if_pos (by omega)] at h
    cases h
  · intro h
    cases hk : m k with
    | none => rfl
    | some t =>
      have hle := h t hk
      rw [Option.bind_some, if_neg (by omega)]

@[simp] theorem set_self (k : κ) (v : ν) (e : ℕ) : m.set k v e k = some ⟨v, e⟩ :=
  Function.update_self ..

theorem set_of_ne {k k' : κ} (h : k' ≠ k) (v : ν) (e : ℕ) : m.set k v e k' = m k' :=
  Function.update_of_ne h ..

/-- A key after `SET` is the one that was set, or another one as it was. -/
theorem set_eq_some {k k' : κ} {v : ν} {e : ℕ} {t : Timed ν} (h : m.set k v e k' = some t) :
    (k' = k ∧ t = ⟨v, e⟩) ∨ m k' = some t := by
  by_cases hk : k' = k
  · subst hk
    rw [set_self, Option.some.injEq] at h
    exact Or.inl ⟨rfl, h.symm⟩
  · rw [set_of_ne hk] at h
    exact Or.inr h

@[simp] theorem del_self (k : κ) : m.del k k = none := Function.update_self ..

theorem del_of_ne {k k' : κ} (h : k' ≠ k) : m.del k k' = m k' := Function.update_of_ne h ..

theorem del_eq_some {k k' : κ} {t : Timed ν} (h : m.del k k' = some t) : k' ≠ k ∧ m k' = some t := by
  by_cases hk : k' = k
  · subst hk
    rw [del_self] at h
    cases h
  · rw [del_of_ne hk] at h
    exact ⟨hk, h⟩

theorem delAll_of_mem {ks : List κ} {k : κ} (h : k ∈ ks) : m.delAll ks k = none := if_pos h

theorem delAll_of_not_mem {ks : List κ} {k : κ} (h : k ∉ ks) : m.delAll ks k = m k := if_neg h

theorem delAll_eq_some {ks : List κ} {k : κ} {t : Timed ν} (h : m.delAll ks k = some t) :
    k ∉ ks ∧ m k = some t := by
  by_cases hk : k ∈ ks
  · rw [delAll_of_mem hk] at h
    cases h
  · rw [delAll_of_not_mem hk] at h
    exact ⟨hk, h⟩

/-! ## Sets -/

variable {ι : Type*} [DecidableEq ι]

/-- `SMEMBERS`. -/
def members (s : Keys κ (List ι)) (now : ℕ) (k : κ) : List ι := (s.get now k).getD []

/-- `SADD k x` and `EXPIRE k`. -/
def sadd (s : Keys κ (List ι)) (now : ℕ) (k : κ) (x : ι) (expiresAt : ℕ) : Keys κ (List ι) :=
  s.set k ((s.members now k).insert x) expiresAt

variable {s : Keys κ (List ι)} {now : ℕ}

omit [DecidableEq κ] [DecidableEq ι] in
theorem mem_members {k : κ} {x : ι} :
    x ∈ s.members now k ↔ ∃ t, s k = some t ∧ now < t.expiresAt ∧ x ∈ t.value := by
  unfold members
  constructor
  · intro h
    cases hk : s.get now k with
    | none =>
      rw [hk] at h
      cases h
    | some l =>
      rw [hk] at h
      obtain ⟨t, ht, hlt, rfl⟩ := get_eq_some.mp hk
      exact ⟨t, ht, hlt, h⟩
  · rintro ⟨t, ht, hlt, hx⟩
    rw [get_eq_some.mpr ⟨t, ht, hlt, rfl⟩]
    exact hx

/-- What is added is there, with the rest of a set that has not expired. -/
theorem sadd_self (k : κ) (x : ι) (e : ℕ) :
    s.sadd now k x e k = some ⟨(s.members now k).insert x, e⟩ :=
  set_self ..

theorem sadd_of_ne {k k' : κ} (h : k' ≠ k) (x : ι) (e : ℕ) : s.sadd now k x e k' = s k' :=
  set_of_ne h ..

/-- A member of a set after `SADD` is the one added, or one there was. -/
theorem mem_sadd {k k' : κ} {x y : ι} {e : ℕ} {t : Timed (List ι)}
    (h : s.sadd now k x e k' = some t) (hy : y ∈ t.value) :
    (k' = k ∧ y = x) ∨ ∃ t', s k' = some t' ∧ y ∈ t'.value := by
  rcases set_eq_some h with ⟨rfl, rfl⟩ | hold
  · rcases List.mem_insert_iff.mp hy with rfl | hy
    · exact Or.inl ⟨rfl, rfl⟩
    · obtain ⟨t', ht', -, hmem⟩ := mem_members.mp hy
      exact Or.inr ⟨t', ht', hmem⟩
  · exact Or.inr ⟨t, hold, hy⟩

/-- A set that has not expired keeps what it has when a member is added and its time put off. -/
theorem sadd_keeps {k : κ} {x : ι} {t : Timed (List ι)} {e e' : ℕ} (ht : s k = some t)
    (hx : x ∈ t.value) (hle : e ≤ t.expiresAt) (hlive : now < e) (hlater : e ≤ e') (k' : κ)
    (y : ι) : ∃ t', s.sadd now k' y e' k = some t' ∧ x ∈ t'.value ∧ e ≤ t'.expiresAt := by
  by_cases hk : k = k'
  · subst hk
    refine ⟨_, sadd_self .., List.mem_insert_of_mem ?_, hlater⟩
    exact mem_members.mpr ⟨t, ht, Nat.lt_of_lt_of_le hlive hle, hx⟩
  · exact ⟨t, (sadd_of_ne hk ..).trans ht, hx, hle⟩

end Keys

end ExpiringKeys
