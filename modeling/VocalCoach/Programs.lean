/-
# Programs that can be cut short

A program over a state returns a value or is cut short, and leaves a state either way.
`Triple P x Q E` is partial correctness with two postconditions: started in `P`, the
program `x` returns in `Q` or is cut short in `E`.  `Keeps I x` is an invariant of `x`,
wherever it is cut.
-/
import Mathlib.Data.Nat.Notation

namespace Program

/-- A program: what it returns, unless it is cut short, and the state it leaves. -/
def Prog (σ α : Type) := σ → Option α × σ

variable {σ α β : Type}

instance : Monad (Prog σ) where
  pure a := fun s => (some a, s)
  bind x f := fun s =>
    match x s with
    | (some a, t) => f a t
    | (none, t) => (none, t)

/-- A look at the state. -/
def read (f : σ → α) : Prog σ α := fun s => (some (f s), s)

/-! ## Triples -/

def Triple (P : σ → Prop) (x : Prog σ α) (Q : α → σ → Prop) (E : σ → Prop) : Prop :=
  ∀ s, P s → match x s with
    | (some a, t) => Q a t
    | (none, t) => E t

/-- An invariant of a program. -/
def Keeps (I : σ → Prop) (x : Prog σ α) : Prop := Triple I x (fun _ => I) I

variable {P P' : σ → Prop} {x : Prog σ α} {Q Q' : α → σ → Prop} {E E' : σ → Prop}

theorem Triple.of_returns {s t : σ} {a : α} (h : Triple P x Q E) (hs : P s)
    (hx : x s = (some a, t)) : Q a t := by
  have hpost := h s hs
  rwa [hx] at hpost

/-- However a program ends, its invariant holds. -/
theorem Keeps.final {I : σ → Prop} (h : Keeps I x) {s : σ} (hs : I s) : I (x s).2 := by
  have hpost := h s hs
  cases hx : x s with
  | mk result t =>
    rw [hx] at hpost
    cases result <;> exact hpost

theorem Triple.weaken (h : Triple P x Q E) (hP : ∀ s, P' s → P s) (hQ : ∀ a s, Q a s → Q' a s)
    (hE : ∀ s, E s → E' s) : Triple P' x Q' E' := by
  intro s hs
  have hpost := h s (hP s hs)
  cases hx : x s with
  | mk result t =>
    rw [hx] at hpost
    cases result with
    | some a => exact hQ a t hpost
    | none => exact hE t hpost

/-- Two facts about one program. -/
theorem Triple.and (h : Triple P x Q E) (h' : Triple P' x Q' E') :
    Triple (fun s => P s ∧ P' s) x (fun a s => Q a s ∧ Q' a s) (fun s => E s ∧ E' s) := by
  rintro s ⟨hs, hs'⟩
  have hpost := h s hs
  have hpost' := h' s hs'
  cases hx : x s with
  | mk result t =>
    rw [hx] at hpost hpost'
    cases result <;> exact ⟨hpost, hpost'⟩

theorem triple_pure {a : α} (h : ∀ s, P s → Q a s) : Triple P (pure a : Prog σ α) Q E :=
  fun s hs => h s hs

theorem triple_read {f : σ → α} (h : ∀ s, P s → Q (f s) s) : Triple P (read f) Q E :=
  fun s hs => h s hs

/-- What was read is what is there. -/
theorem triple_read_eq {f : σ → α} : Triple P (read f) (fun a s => f s = a ∧ P s) E :=
  triple_read fun _ hs => ⟨rfl, hs⟩

/-- **Sequencing.** -/
theorem Triple.bind {f : α → Prog σ β} {R : β → σ → Prop} (h : Triple P x Q E)
    (hf : ∀ a, Triple (Q a) (f a) R E) : Triple P (x >>= f) R E := by
  intro s hs
  have hpost := h s hs
  show match (match x s with
    | (some a, t) => f a t
    | (none, t) => (none, t)) with
    | (some b, t) => R b t
    | (none, t) => E t
  cases hx : x s with
  | mk result t =>
    rw [hx] at hpost
    cases result with
    | some a => exact hf a t hpost
    | none => exact hpost

theorem triple_ite {c : Prop} [Decidable c] {y : Prog σ α} (hx : c → Triple P x Q E)
    (hy : ¬ c → Triple P y Q E) : Triple P (if c then x else y) Q E := by
  by_cases hc : c
  · rw [if_pos hc]
    exact hx hc
  · rw [if_neg hc]
    exact hy hc

/-- What is known before does not depend on the state. -/
theorem triple_of_imp {p : Prop} (h : p → Triple P x Q E) : Triple (fun s => p ∧ P s) x Q E :=
  fun s hs => h hs.1 s hs.2

theorem Keeps.bind {I : σ → Prop} {f : α → Prog σ β} (h : Keeps I x) (hf : ∀ a, Keeps I (f a)) :
    Keeps I (x >>= f) :=
  Triple.bind h hf

theorem keeps_pure {I : σ → Prop} (a : α) : Keeps I (pure a : Prog σ α) := triple_pure fun _ h => h

theorem keeps_read {I : σ → Prop} (f : σ → α) : Keeps I (read f) := triple_read fun _ h => h

theorem Triple.exists {ι : Type} {P : ι → σ → Prop} (h : ∀ i, Triple (P i) x Q E) :
    Triple (fun s => ∃ i, P i s) x Q E := by
  rintro s ⟨i, hs⟩
  exact h i s hs

/-! ## Programs that are never cut short -/

/-- The program returns, wherever it is started. -/
def Uncut (x : Prog σ α) : Prop := ∀ s, ∃ a t, x s = (some a, t)

theorem uncut_pure (a : α) : Uncut (pure a : Prog σ α) := fun s => ⟨a, s, rfl⟩

theorem uncut_read (f : σ → α) : Uncut (read f) := fun s => ⟨f s, s, rfl⟩

theorem Uncut.bind {f : α → Prog σ β} (hx : Uncut x) (hf : ∀ a, Uncut (f a)) :
    Uncut (x >>= f) := by
  intro s
  obtain ⟨a, t, hxs⟩ := hx s
  obtain ⟨b, u, hft⟩ := hf a t
  refine ⟨b, u, ?_⟩
  show (match x s with
    | (some a, t) => f a t
    | (none, t) => (none, t)) = (some b, u)
  rw [hxs]
  exact hft

theorem uncut_ite {c : Prop} [Decidable c] {y : Prog σ α} (hx : Uncut x) (hy : Uncut y) :
    Uncut (if c then x else y) := by
  split
  · exact hx
  · exact hy

/-- **Total correctness** of a program that is never cut short. -/
theorem Triple.total (h : Triple P x Q E) (hx : Uncut x) {s : σ} (hs : P s) :
    ∃ a t, x s = (some a, t) ∧ Q a t := by
  obtain ⟨a, t, hxs⟩ := hx s
  exact ⟨a, t, hxs, h.of_returns hs hxs⟩

/-! ## Programs that are cut short later, or never -/

/-- Where `x` returns, `y` does the same. -/
def Extends (x y : Prog σ α) : Prop := ∀ s a t, x s = (some a, t) → y s = (some a, t)

theorem Extends.refl (x : Prog σ α) : Extends x x := fun _ _ _ h => h

theorem Extends.bind {y : Prog σ α} {f g : α → Prog σ β} (h : Extends x y)
    (hf : ∀ a, Extends (f a) (g a)) : Extends (x >>= f) (y >>= g) := by
  intro s b u hrun
  change (match x s with
    | (some a, t) => f a t
    | (none, t) => (none, t)) = (some b, u) at hrun
  change (match y s with
    | (some a, t) => g a t
    | (none, t) => (none, t)) = (some b, u)
  cases hx : x s with
  | mk result t =>
    rw [hx] at hrun
    cases result with
    | none => cases hrun
    | some a =>
      rw [h s a t hx]
      exact hf a t b u hrun

theorem bind_assoc (x : Prog σ α) {γ : Type} (f : α → Prog σ β) (g : β → Prog σ γ) :
    x >>= f >>= g = x >>= fun a => f a >>= g := by
  funext s
  change (match (match x s with
    | (some a, t) => f a t
    | (none, t) => (none, t)) with
    | (some b, t) => g b t
    | (none, t) => (none, t)) = (match x s with
    | (some a, t) => (f a >>= g) t
    | (none, t) => (none, t))
  cases x s with
  | mk result t => cases result <;> rfl

theorem returns_of_fst {s : σ} {a : α} (h : (x s).1 = some a) : ∃ t, x s = (some a, t) :=
  ⟨(x s).2, Prod.ext h rfl⟩

/-- What a program does first. -/
theorem bind_of_returns {f : α → Prog σ β} {s t : σ} {a : α} (h : x s = (some a, t)) :
    (x >>= f) s = f a t := by
  change (match x s with
    | (some a, t) => f a t
    | (none, t) => (none, t)) = f a t
  rw [h]

theorem bind_of_cut {f : α → Prog σ β} {s t : σ} (h : x s = (none, t)) :
    (x >>= f) s = (none, t) := by
  change (match x s with
    | (some a, t) => f a t
    | (none, t) => (none, t)) = (none, t)
  rw [h]

end Program
