/-
# Executable transition systems

A machine is a partial step function `step : σ → α → Option σ`; a run is a list of
actions.  `Meets` says that every action of a run is taken in a state where a condition
allows it, and `invariant` is the induction every safety result goes through: what holds
at first and is kept by every allowed step holds after every such run.

Counters of a run are kept outside the state: `total` adds up what each step of a run
counts, and `total_balance` reads a conservation law off the steps.
-/
import Mathlib.Data.Nat.Notation
import Mathlib.Data.Option.Basic
import Mathlib.Data.List.Induction

namespace Machine

variable {σ α : Type*} (step : σ → α → Option σ)

/-- The state after a list of actions, if every one of them is enabled. -/
def exec : σ → List α → Option σ
  | s, [] => some s
  | s, a :: as => (step s a).bind fun s' => exec s' as

/-- Every action the run takes is taken where `cond` allows it. -/
def Meets (cond : σ → α → Prop) : σ → List α → Prop
  | _, [] => True
  | s, a :: as => ∀ s', step s a = some s' → cond s a ∧ Meets cond s' as

/-- `P` holds in every state a run passes through, the first and the last included. -/
def Along (P : σ → Prop) : σ → List α → Prop
  | s, [] => P s
  | s, a :: as => P s ∧ ∀ s', step s a = some s' → Along P s' as

/-- A run on concrete data can be checked. -/
def decideMeets (cond : σ → α → Prop) [∀ s a, Decidable (cond s a)] :
    (as : List α) → (s : σ) → Decidable (Meets step cond s as)
  | [], _ => isTrue trivial
  | a :: as, s =>
      match h : step s a with
      | none => isTrue fun s' hs' => by rw [h] at hs'; cases hs'
      | some t =>
          have := decideMeets cond as t
          decidable_of_iff (cond s a ∧ Meets step cond t as)
            ⟨fun hmeets s' hs' => by rw [h] at hs'; cases hs'; exact hmeets,
              fun hmeets => hmeets t h⟩

instance {cond : σ → α → Prop} [∀ s a, Decidable (cond s a)] (s : σ) (as : List α) :
    Decidable (Meets step cond s as) :=
  decideMeets step cond as s

/-- Some action of the run is taken where `cond` holds. -/
def Takes (cond : σ → α → Prop) (s : σ) (as : List α) : Prop :=
  ¬ Meets step (fun s a => ¬ cond s a) s as

instance {cond : σ → α → Prop} [∀ s a, Decidable (cond s a)] (s : σ) (as : List α) :
    Decidable (Takes step cond s as) :=
  inferInstanceAs (Decidable (¬ _))

variable {step}

@[simp] theorem exec_nil (s : σ) : exec step s [] = some s := rfl

theorem exec_cons {s s' : σ} {a : α} {as : List α} :
    exec step s (a :: as) = some s' ↔ ∃ t, step s a = some t ∧ exec step t as = some s' := by
  simp [exec, Option.bind_eq_some_iff]

theorem exec_append {s s' : σ} {as bs : List α} :
    exec step s (as ++ bs) = some s' ↔ ∃ t, exec step s as = some t ∧ exec step t bs = some s' := by
  induction as generalizing s with
  | nil => simp
  | cons a as ih =>
    rw [List.cons_append, exec_cons]
    constructor
    · rintro ⟨t, ht, hrun⟩
      obtain ⟨u, hu, hrest⟩ := ih.mp hrun
      exact ⟨u, exec_cons.mpr ⟨t, ht, hu⟩, hrest⟩
    · rintro ⟨u, hu, hrest⟩
      obtain ⟨t, ht, hrun⟩ := exec_cons.mp hu
      exact ⟨t, ht, ih.mpr ⟨u, hrun, hrest⟩⟩

theorem meets_append {cond : σ → α → Prop} {s t : σ} {as bs : List α}
    (h : Meets step cond s (as ++ bs)) (hrun : exec step s as = some t) :
    Meets step cond s as ∧ Meets step cond t bs := by
  induction as generalizing s with
  | nil =>
    obtain rfl : s = t := Option.some.inj hrun
    exact ⟨trivial, h⟩
  | cons a as ih =>
    obtain ⟨u, hu, hrest⟩ := exec_cons.mp hrun
    obtain ⟨hcond, hnext⟩ := h u hu
    refine ⟨fun s' hs' => ?_, (ih hnext hrest).2⟩
    obtain rfl : u = s' := Option.some.inj (hu.symm.trans hs')
    exact ⟨hcond, (ih hnext hrest).1⟩

/-- One more action is taken where `cond` holds, or none was needed. -/
theorem takes_concat {cond : σ → α → Prop} {s t t' : σ} {as : List α} {a : α}
    (hrun : exec step s as = some t) (hstep : step t a = some t')
    (h : Takes step cond s as ∨ cond t a) : Takes step cond s (as ++ [a]) := by
  intro hmeets
  obtain ⟨hbefore, hlast⟩ := meets_append hmeets hrun
  rcases h with h | h
  · exact h hbefore
  · exact (hlast t' hstep).1 h

/-- A condition that always holds is met by every run. -/
theorem meets_of_forall {cond : σ → α → Prop} (h : ∀ s a, cond s a) {s : σ} {as : List α} :
    Meets step cond s as := by
  induction as generalizing s with
  | nil => trivial
  | cons a as ih => exact fun s' _ => ⟨h s a, ih⟩

theorem meets_forall {ι : Type*} {cond : ι → σ → α → Prop} {s : σ} {as : List α} :
    (∀ i, Meets step (cond i) s as) ↔ Meets step (fun s a => ∀ i, cond i s a) s as := by
  induction as generalizing s with
  | nil => exact iff_of_true (fun _ => trivial) trivial
  | cons a as ih =>
    constructor
    · intro h s' hs'
      exact ⟨fun i => (h i s' hs').1, ih.mp fun i => (h i s' hs').2⟩
    · intro h i s' hs'
      obtain ⟨hcond, hnext⟩ := h s' hs'
      exact ⟨hcond i, ih.mpr hnext i⟩

theorem meets_congr {cond cond' : σ → α → Prop} (h : ∀ s a, cond s a ↔ cond' s a) {s : σ}
    {as : List α} : Meets step cond s as ↔ Meets step cond' s as := by
  rw [show cond = cond' from funext fun s => funext fun a => propext (h s a)]

theorem meets_mono {cond cond' : σ → α → Prop} (h : ∀ s a, cond s a → cond' s a) {s : σ}
    {as : List α} (hmeets : Meets step cond s as) : Meets step cond' s as := by
  induction as generalizing s with
  | nil => trivial
  | cons a as ih => exact fun s' hs' => ⟨h s a (hmeets s' hs').1, ih (hmeets s' hs').2⟩

theorem meets_inter {cond cond' : σ → α → Prop} {s : σ} {as : List α}
    (h : Meets step cond s as) (h' : Meets step cond' s as) :
    Meets step (fun s a => cond s a ∧ cond' s a) s as := by
  induction as generalizing s with
  | nil => trivial
  | cons a as ih =>
    intro s' hs'
    obtain ⟨hcond, hnext⟩ := h s' hs'
    obtain ⟨hcond', hnext'⟩ := h' s' hs'
    exact ⟨⟨hcond, hcond'⟩, ih hnext hnext'⟩

/-- A condition on the actions alone can be read off the list. -/
theorem meets_and {cond : σ → α → Prop} {Q : α → Prop} {s : σ} {as : List α}
    (h : Meets step cond s as) (hQ : ∀ a ∈ as, Q a) :
    Meets step (fun s a => cond s a ∧ Q a) s as := by
  induction as generalizing s with
  | nil => trivial
  | cons a as ih =>
    intro s' hs'
    obtain ⟨hcond, hnext⟩ := h s' hs'
    exact ⟨⟨hcond, hQ a List.mem_cons_self⟩, ih hnext fun b hb => hQ b (List.mem_cons_of_mem _ hb)⟩

/-- **The induction over a run.** -/
theorem invariant (Inv : σ → Prop) {cond : σ → α → Prop}
    (hstep : ∀ s a s', Inv s → cond s a → step s a = some s' → Inv s')
    {s s' : σ} {as : List α} (hinit : Inv s) (hmeets : Meets step cond s as)
    (hrun : exec step s as = some s') : Inv s' := by
  induction as generalizing s with
  | nil =>
    obtain rfl : s = s' := Option.some.inj hrun
    exact hinit
  | cons a as ih =>
    obtain ⟨t, ht, hrest⟩ := exec_cons.mp hrun
    obtain ⟨hcond, hnext⟩ := hmeets t ht
    exact ih (hstep s a t hinit hcond ht) hnext hrest

/-- What an invariant makes of a condition. -/
theorem meets_of_invariant (Inv : σ → Prop) {cond cond' : σ → α → Prop}
    (hstep : ∀ s a s', Inv s → cond s a → step s a = some s' → Inv s')
    (himp : ∀ s a s', Inv s → cond s a → step s a = some s' → cond' s a) {s : σ} {as : List α}
    (hinit : Inv s) (hmeets : Meets step cond s as) : Meets step cond' s as := by
  induction as generalizing s with
  | nil => trivial
  | cons a as ih =>
    intro s' hs'
    obtain ⟨hcond, hnext⟩ := hmeets s' hs'
    exact ⟨himp s a s' hinit hcond hs', ih (hstep s a s' hinit hcond hs') hnext⟩

/-- An invariant of every step. -/
theorem invariant_all (Inv : σ → Prop) (hstep : ∀ s a s', Inv s → step s a = some s' → Inv s')
    {s s' : σ} {as : List α} (hinit : Inv s) (hrun : exec step s as = some s') : Inv s' := by
  have hmeets : Meets step (fun _ _ => True) s as := meets_of_forall fun _ _ => trivial
  exact invariant Inv (fun s a s' h _ => hstep s a s' h) hinit hmeets hrun

/-- **The induction over a run**, for what depends on the actions taken so far. -/
theorem invariant_history (Inv : List α → σ → Prop) {s : σ} (hinit : Inv [] s)
    (hstep : ∀ as t a t', exec step s as = some t → Inv as t → step t a = some t' →
      Inv (as ++ [a]) t')
    {s' : σ} {as : List α} (hrun : exec step s as = some s') : Inv as s' := by
  induction as using List.reverseRecOn generalizing s' with
  | nil =>
    obtain rfl : s = s' := Option.some.inj hrun
    exact hinit
  | append_singleton as a ih =>
    obtain ⟨t, hbefore, hlast⟩ := exec_append.mp hrun
    obtain ⟨t', ht', hnil⟩ := exec_cons.mp hlast
    obtain rfl : t' = s' := Option.some.inj hnil
    exact hstep as t a t' hbefore (ih hbefore) ht'

/-- **An exact condition for a run.**  Where a step keeps `P` if and only if it meets
`cond`, the runs that stay in `P` are those whose steps all meet `cond`. -/
theorem along_iff_meets (Inv : σ → Prop) {P : σ → Prop} {cond : σ → α → Prop}
    (hinv : ∀ s a s', Inv s → step s a = some s' → Inv s')
    (hstep : ∀ s a s', Inv s → P s → step s a = some s' → (P s' ↔ cond s a))
    {s : σ} (hs : Inv s) (hP : P s) (as : List α) :
    Along step P s as ↔ Meets step cond s as := by
  induction as generalizing s with
  | nil => exact iff_of_true hP trivial
  | cons a as ih =>
    simp only [Along, Meets, hP, true_and]
    refine forall₂_congr fun t ht => ?_
    have hnext := hstep s a t hs hP ht
    constructor
    · intro h
      have hPt : P t := by
        cases as with
        | nil => exact h
        | cons => exact h.1
      exact ⟨hnext.mp hPt, (ih (hinv s a t hs ht) hPt).mp h⟩
    · rintro ⟨hcond, hmeets⟩
      exact (ih (hinv s a t hs ht) (hnext.mpr hcond)).mpr hmeets

/-! ## Counting over a run -/

/-- What the steps of a run count, added up. -/
def total (step : σ → α → Option σ) (count : σ → α → ℕ) : σ → List α → ℕ
  | _, [] => 0
  | s, a :: as => count s a + (step s a).elim 0 fun s' => total step count s' as

theorem total_cons {count : σ → α → ℕ} {s t : σ} {a : α} {as : List α} (h : step s a = some t) :
    total step count s (a :: as) = count s a + total step count t as := by
  simp [total, h]

theorem total_add {count count' : σ → α → ℕ} (s : σ) (as : List α) :
    total step (fun s a => count s a + count' s a) s as
      = total step count s as + total step count' s as := by
  induction as generalizing s with
  | nil => rfl
  | cons a as ih =>
    cases hs : step s a with
    | none => simp [total, hs]
    | some t =>
      rw [total_cons hs, total_cons hs, total_cons hs, ih]
      omega

/-- Nothing is counted over a run if and only if no step of it counts anything. -/
theorem total_eq_zero_iff {count : σ → α → ℕ} {s s' : σ} {as : List α}
    (hrun : exec step s as = some s') :
    total step count s as = 0 ↔ Meets step (fun s a => count s a = 0) s as := by
  induction as generalizing s with
  | nil => exact iff_of_true rfl trivial
  | cons a as ih =>
    obtain ⟨t, ht, hrest⟩ := exec_cons.mp hrun
    rw [total_cons ht, Nat.add_eq_zero_iff, ih hrest]
    constructor
    · rintro ⟨hone, hall⟩ t' ht'
      obtain rfl : t = t' := Option.some.inj (ht.symm.trans ht')
      exact ⟨hone, hall⟩
    · intro h
      exact h t ht

/-- **A conservation law.**  If every step adds `made` to the balance and takes `used`
from it, what was made over a run is what was used and what is left. -/
theorem total_balance (balance : σ → ℕ) {made used : σ → α → ℕ}
    (hstep : ∀ s a s', step s a = some s' → balance s + made s a = balance s' + used s a)
    {s s' : σ} {as : List α} (hrun : exec step s as = some s') :
    balance s + total step made s as = balance s' + total step used s as := by
  induction as generalizing s with
  | nil =>
    obtain rfl : s = s' := Option.some.inj hrun
    rfl
  | cons a as ih =>
    obtain ⟨t, ht, hrest⟩ := exec_cons.mp hrun
    have hrec := ih hrest
    have hone := hstep s a t ht
    rw [total_cons ht, total_cons ht]
    omega

/-- `total_balance` where the steps keep an invariant. -/
theorem total_balance_of_invariant (Inv : σ → Prop) (balance : σ → ℕ) {made used : σ → α → ℕ}
    (hinv : ∀ s a s', Inv s → step s a = some s' → Inv s')
    (hstep : ∀ s a s', Inv s → step s a = some s' → balance s + made s a = balance s' + used s a)
    {s s' : σ} {as : List α} (hinit : Inv s) (hrun : exec step s as = some s') :
    balance s + total step made s as = balance s' + total step used s as := by
  induction as generalizing s with
  | nil =>
    obtain rfl : s = s' := Option.some.inj hrun
    rfl
  | cons a as ih =>
    obtain ⟨t, ht, hrest⟩ := exec_cons.mp hrun
    have hrec := ih (hinv s a t hinit ht) hrest
    have hone := hstep s a t hinit ht
    rw [total_cons ht, total_cons ht]
    omega

/-! ## Parts of a machine -/

variable {σ' α' : Type*} {step' : σ' → α' → Option σ'}

/-- The actions of a part over a run of the whole. -/
def projected (step : σ → α → Option σ) (actions : σ → α → List α') : σ → List α → List α'
  | _, [] => []
  | s, a :: as => actions s a ++ (step s a).elim [] fun s' => projected step actions s' as

theorem projected_cons {actions : σ → α → List α'} {s t : σ} {a : α} {as : List α}
    (h : step s a = some t) :
    projected step actions s (a :: as) = actions s a ++ projected step actions t as := by
  simp [projected, h]

/-- **A run of the whole is a run of each part.** -/
theorem exec_projected (view : σ → σ') {actions : σ → α → List α'}
    (hstep : ∀ s a t, step s a = some t → exec step' (view s) (actions s a) = some (view t))
    {s t : σ} {as : List α} (hrun : exec step s as = some t) :
    exec step' (view s) (projected step actions s as) = some (view t) := by
  induction as generalizing s with
  | nil =>
    obtain rfl : s = t := Option.some.inj hrun
    rfl
  | cons a as ih =>
    obtain ⟨u, hu, hrest⟩ := exec_cons.mp hrun
    rw [projected_cons hu]
    exact exec_append.mpr ⟨view u, hstep s a u hu, ih hrest⟩

/-- What the actions of a part count, step by step of the whole. -/
theorem countP_projected (p : α' → Bool) {actions : σ → α → List α'} (s : σ) (as : List α) :
    (projected step actions s as).countP p =
      total step (fun s a => (actions s a).countP p) s as := by
  induction as generalizing s with
  | nil => rfl
  | cons a as ih =>
    cases hs : step s a with
    | none => simp [projected, total, hs]
    | some t => rw [projected_cons hs, total_cons hs, List.countP_append, ih]

end Machine
