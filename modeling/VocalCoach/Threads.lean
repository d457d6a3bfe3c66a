/-
# Counting threads

Calls that overlap, as a list of threads of which one moves at a time: `threads.set i d` is
the list after the i-th has gone on to `d`.  The lemmas say how many threads of a kind there
are then, and when an active thread stays the only one with its key (`Alone`).
-/
import Mathlib.Data.Nat.Notation

namespace Threads

variable {γ : Type*} {p : γ → Bool} {threads : List γ} {i : ℕ} {c d : γ}

/-- **Where one thread moves**, the others count as before. -/
theorem countP_set (h : threads[i]? = some c) (d : γ) (p : γ → Bool) :
    (threads.set i d).countP p + (if p c then 1 else 0) =
      threads.countP p + if p d then 1 else 0 := by
  obtain ⟨hi, rfl⟩ := List.getElem?_eq_some_iff.mp h
  have hle := List.boole_getElem_le_countP (p := p) hi
  rw [List.countP_set hi]
  omega

theorem countP_set_of_eq (h : threads[i]? = some c) (heq : p d = p c) :
    (threads.set i d).countP p = threads.countP p := by
  have hcount := countP_set h d p
  rw [heq] at hcount
  omega

/-- A thread that becomes one of a kind. -/
theorem countP_set_joins (h : threads[i]? = some c) (hc : p c = false) (hd : p d = true) :
    (threads.set i d).countP p = threads.countP p + 1 := by
  have hcount := countP_set h d p
  rwa [hc, hd, if_pos rfl, if_neg Bool.false_ne_true] at hcount

/-- A thread that is no longer one of a kind. -/
theorem countP_set_leaves (h : threads[i]? = some c) (hc : p c = true) (hd : p d = false) :
    (threads.set i d).countP p + 1 = threads.countP p := by
  have hcount := countP_set h d p
  rwa [hc, hd, if_pos rfl, if_neg Bool.false_ne_true] at hcount

/-- A thread is the one that has moved, or one that stayed. -/
theorem getElem?_set_cases {e : γ} {j : ℕ} (h : (threads.set i d)[j]? = some e) :
    (i = j ∧ e = d) ∨ (i ≠ j ∧ threads[j]? = some e) := by
  by_cases hij : i = j
  · subst hij
    have hlt := (List.getElem?_eq_some_iff.mp h).1
    rw [List.length_set] at hlt
    rw [List.getElem?_set_self hlt] at h
    exact Or.inl ⟨rfl, (Option.some.inj h).symm⟩
  · rw [List.getElem?_set_ne hij] at h
    exact Or.inr ⟨hij, h⟩

/-- No thread becomes one of a kind. -/
theorem countP_set_le (h : threads[i]? = some c) (himp : p d = true → p c = true) :
    (threads.set i d).countP p ≤ threads.countP p := by
  have hcount := countP_set h d p
  by_cases hd : p d = true
  · rw [if_pos hd, if_pos (himp hd)] at hcount
    omega
  · rw [if_neg hd] at hcount
    omega

/-- A thread of a kind stays one. -/
theorem le_countP_set (h : threads[i]? = some c) (himp : p c = true → p d = true) :
    threads.countP p ≤ (threads.set i d).countP p := by
  have hcount := countP_set h d p
  by_cases hc : p c = true
  · rw [if_pos hc, if_pos (himp hc)] at hcount
    omega
  · rw [if_neg hc] at hcount
    omega

/-- A thread that enters counts with the others. -/
theorem countP_concat (threads : List γ) (d : γ) (p : γ → Bool) :
    (threads ++ [d]).countP p = threads.countP p + if p d then 1 else 0 := by
  rw [List.countP_append, List.countP_singleton]

/-- Threads of a kind that are all of one of two others. -/
theorem countP_le_add {q r : γ → Bool} (threads : List γ)
    (h : ∀ c ∈ threads, p c = true → q c = true ∨ r c = true) :
    threads.countP p ≤ threads.countP q + threads.countP r := by
  induction threads with
  | nil => exact Nat.zero_le _
  | cons c threads ih =>
    have hrest := ih fun d hd => h d (List.mem_cons_of_mem _ hd)
    have hone := h c List.mem_cons_self
    rw [List.countP_cons, List.countP_cons, List.countP_cons]
    by_cases hp : p c = true
    · rcases hone hp with hq | hr
      · rw [if_pos hp, if_pos hq]
        omega
      · rw [if_pos hp, if_pos hr]
        omega
    · rw [if_neg hp]
      omega

/-- **Threads of a kind that each have an entry of their own** are no more than the entries. -/
theorem countP_le_length {δ : Type*} [DecidableEq δ] {f : ℕ → γ → δ} {entries : List δ}
    (hf : ∀ i j c d, f i c = f j d → i = j)
    (h : ∀ i c, threads[i]? = some c → p c = true → f i c ∈ entries) :
    threads.countP p ≤ entries.length := by
  induction threads generalizing f entries with
  | nil => exact Nat.zero_le _
  | cons c threads ih =>
    have hlater : ∀ i j c d, f (i + 1) c = f (j + 1) d → i = j := fun i j c d heq => by
      have hindex := hf _ _ _ _ heq
      omega
    rw [List.countP_cons]
    by_cases hp : p c = true
    · have hmem : f 0 c ∈ entries := h 0 c rfl hp
      have hrest : threads.countP p ≤ (entries.erase (f 0 c)).length := by
        refine @ih (fun i => f (i + 1)) _ hlater fun i d hd hpd => ?_
        refine (List.mem_erase_of_ne fun heq => ?_).mpr (h (i + 1) d hd hpd)
        have hindex := hf _ _ _ _ heq
        omega
      have hlength := List.length_erase_of_mem hmem
      have hpos := List.length_pos_of_mem hmem
      rw [if_pos hp]
      omega
    · rw [if_neg hp]
      exact @ih (fun i => f (i + 1)) _ hlater fun i d hd hpd => h (i + 1) d hd hpd

/-- A thread is one of those there were, or the one that entered. -/
theorem getElem?_concat {e : γ} (h : (threads ++ [d])[i]? = some e) :
    threads[i]? = some e ∨ (i = threads.length ∧ e = d) := by
  by_cases hi : i < threads.length
  · rw [List.getElem?_append_left hi] at h
    exact Or.inl h
  · rw [List.getElem?_append_right (Nat.le_of_not_lt hi)] at h
    obtain ⟨hlt, rfl⟩ := List.getElem?_eq_some_iff.mp h
    rw [List.length_singleton] at hlt
    exact Or.inr ⟨by omega, List.getElem_singleton ..⟩

/-! ## Threads that are alone -/

/-- No two threads with one key are active. -/
def Alone {δ : Type*} (active : γ → Bool) (key : γ → δ) (threads : List γ) : Prop :=
  ∀ (i j : ℕ) (c d : γ), threads[i]? = some c → threads[j]? = some d → key c = key d →
    active c = true → active d = true → i = j

section Alone

variable {δ : Type*} {active : γ → Bool} {key : γ → δ}

/-- A thread that goes on with its key, and is active only if it was. -/
theorem Alone.set (h : Alone active key threads) (hi : threads[i]? = some c)
    (hkey : key d = key c) (hstays : active d = true → active c = true) :
    Alone active key (threads.set i d) := by
  -- every thread was there before, and was active if it is
  have hback : ∀ {j : ℕ} {e : γ}, (threads.set i d)[j]? = some e →
      ∃ e', threads[j]? = some e' ∧ key e' = key e ∧ (active e = true → active e' = true) := by
    intro j e he
    rcases getElem?_set_cases he with ⟨rfl, rfl⟩ | ⟨-, hbefore⟩
    · exact ⟨c, hi, hkey.symm, hstays⟩
    · exact ⟨e, hbefore, rfl, id⟩
  intro j k e f he hf hsame heactive hfactive
  obtain ⟨e', he', hekey, heback⟩ := hback he
  obtain ⟨f', hf', hfkey, hfback⟩ := hback hf
  exact h j k e' f' he' hf' (by rw [hekey, hfkey, hsame]) (heback heactive) (hfback hfactive)

/-- A thread that becomes active where no other one with its key is. -/
theorem Alone.activate (h : Alone active key threads) (i : ℕ)
    (hidle : ∀ e ∈ threads, key e = key d → active e = false) :
    Alone active key (threads.set i d) := by
  intro j k e f he hf hsame heactive hfactive
  rcases getElem?_set_cases he with ⟨rfl, rfl⟩ | ⟨-, hebefore⟩
  · rcases getElem?_set_cases hf with ⟨rfl, rfl⟩ | ⟨-, hfbefore⟩
    · rfl
    · rw [hidle f (List.mem_of_getElem? hfbefore) hsame.symm] at hfactive
      cases hfactive
  · rcases getElem?_set_cases hf with ⟨rfl, rfl⟩ | ⟨-, hfbefore⟩
    · rw [hidle e (List.mem_of_getElem? hebefore) hsame] at heactive
      cases heactive
    · exact h j k e f hebefore hfbefore hsame heactive hfactive

/-- A thread that enters, active only if no other one with its key is. -/
theorem Alone.concat (h : Alone active key threads)
    (hidle : active d = true → ∀ e ∈ threads, key e = key d → active e = false) :
    Alone active key (threads ++ [d]) := by
  intro j k e f he hf hsame heactive hfactive
  rcases getElem?_concat he with hebefore | ⟨rfl, rfl⟩
  · rcases getElem?_concat hf with hfbefore | ⟨rfl, rfl⟩
    · exact h j k e f hebefore hfbefore hsame heactive hfactive
    · rw [hidle hfactive e (List.mem_of_getElem? hebefore) hsame] at heactive
      cases heactive
  · rcases getElem?_concat hf with hfbefore | ⟨rfl, rfl⟩
    · rw [hidle heactive f (List.mem_of_getElem? hfbefore) hsame.symm] at hfactive
      cases hfactive
    · rfl

/-- The others with the key of an active thread are not active. -/
theorem Alone.eq_false {j : ℕ} (h : Alone active key threads) (hi : threads[i]? = some c)
    (hactive : active c = true) (hj : threads[j]? = some d) (hkey : key c = key d)
    (hij : i ≠ j) : active d = false := by
  rw [← Bool.not_eq_true]
  exact fun hd => hij (h i j c d hi hj hkey hactive hd)

end Alone

end Threads
