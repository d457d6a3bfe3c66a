/-
# Programs that may end with an error

A program that returns or throws keeps what it has done to its state either way:
`EStateM ε σ α`.  An error of a sequence is an error of its first part, or of the rest once
the first part has returned (`error_of_bind`); what both parts preserve, the sequence
preserves (`Preserves`).
-/
import Mathlib.Logic.Basic

namespace Fallible

/-- Reads something off the state. -/
def look {ε σ α : Type} (g : σ → α) : EStateM ε σ α := fun s => .ok (g s) s

variable {ε σ α β : Type} {x : EStateM ε σ α} {f : α → EStateM ε σ β} {s t : σ} {e : ε}

/-- The state a program leaves, however it ends. -/
def final {ε σ α : Type} : EStateM.Result ε σ α → σ
  | .ok _ s => s
  | .error _ s => s

/-! ## Errors of a sequence -/

/-- **An error of a sequence** comes from its first part or from the rest. -/
theorem error_of_bind (h : (x >>= f) s = .error e t) :
    x s = .error e t ∨ ∃ a u, x s = .ok a u ∧ f a u = .error e t := by
  change EStateM.bind x f s = .error e t at h
  unfold EStateM.bind at h
  cases hx : x s with
  | ok a u =>
    rw [hx] at h
    exact Or.inr ⟨a, u, rfl, h⟩
  | error e' u =>
    rw [hx] at h
    cases h
    exact Or.inl rfl

theorem ok_of_bind {b : β} (h : (x >>= f) s = .ok b t) :
    ∃ a u, x s = .ok a u ∧ f a u = .ok b t := by
  change EStateM.bind x f s = .ok b t at h
  unfold EStateM.bind at h
  cases hx : x s with
  | ok a u =>
    rw [hx] at h
    exact ⟨a, u, rfl, h⟩
  | error e' u =>
    rw [hx] at h
    cases h

/-- A sequence whose first part returns goes on with the rest. -/
theorem bind_of_ok {a : α} {u : σ} (hx : x s = .ok a u) : (x >>= f) s = f a u := by
  change EStateM.bind x f s = f a u
  unfold EStateM.bind
  rw [hx]

/-- An error that is handled is that of the handler. -/
theorem error_of_tryCatch {handle : ε → EStateM ε σ α}
    (h : tryCatch x handle s = .error e t) : ∃ e' u, x s = .error e' u ∧ handle e' u = .error e t := by
  change EStateM.tryCatch x handle s = .error e t at h
  unfold EStateM.tryCatch at h
  cases hx : x s with
  | ok a u =>
    rw [hx] at h
    cases h
  | error e' u =>
    rw [hx] at h
    exact ⟨e', u, rfl, h⟩

theorem ok_of_tryCatch {handle : ε → EStateM ε σ α} {a : α} (h : tryCatch x handle s = .ok a t) :
    x s = .ok a t ∨ ∃ e' u, x s = .error e' u ∧ handle e' u = .ok a t := by
  change EStateM.tryCatch x handle s = .ok a t at h
  unfold EStateM.tryCatch at h
  cases hx : x s with
  | ok a' u =>
    rw [hx] at h
    exact Or.inl h
  | error e' u =>
    rw [hx] at h
    exact Or.inr ⟨e', u, rfl, h⟩

/-- An error of a program behind a guard is that of the guard, or the program's own. -/
theorem error_of_guard {c : Prop} [Decidable c] {e' : ε} {k : Unit → EStateM ε σ α}
    (h : (if c then throw e' >>= k else k ()) s = .error e t) :
    (c ∧ e = e' ∧ t = s) ∨ (¬ c ∧ k () s = .error e t) := by
  by_cases hc : c
  · rw [if_pos hc] at h
    cases h
    exact Or.inl ⟨hc, rfl, rfl⟩
  · rw [if_neg hc] at h
    exact Or.inr ⟨hc, h⟩

/-! ## Triples -/

/-- From a state with `P`, the program returns with `Q` or throws with `E`. -/
def Triple (P : σ → Prop) (x : EStateM ε σ α) (Q : α → σ → Prop) (E : ε → σ → Prop) : Prop :=
  ∀ s, P s → match x s with
    | .ok a t => Q a t
    | .error e t => E e t

/-- Whether it returns or throws, the program preserves `I`. -/
def Preserves (I : σ → Prop) (x : EStateM ε σ α) : Prop := Triple I x (fun _ => I) fun _ => I

section Triple

variable {P P' I : σ → Prop} {Q Q' : α → σ → Prop} {R : β → σ → Prop} {E E' : ε → σ → Prop}

theorem Triple.of_ok {a : α} (h : Triple P x Q E) (hs : P s) (hx : x s = .ok a t) : Q a t := by
  have := h s hs
  rwa [hx] at this

theorem Triple.of_error (h : Triple P x Q E) (hs : P s) (hx : x s = .error e t) : E e t := by
  have := h s hs
  rwa [hx] at this

/-- However a program ends, it leaves what it preserves. -/
theorem Preserves.final (h : Preserves I x) (hs : I s) : I (Fallible.final (x s)) := by
  cases hx : x s with
  | ok a t => exact Triple.of_ok h hs hx
  | error e t => exact Triple.of_error h hs hx

theorem Triple.weaken (h : Triple P x Q E) (hP : ∀ s, P' s → P s) (hQ : ∀ a s, Q a s → Q' a s)
    (hE : ∀ e s, E e s → E' e s) : Triple P' x Q' E' := by
  intro s hs
  cases hx : x s with
  | ok a t => exact hQ a t (h.of_ok (hP s hs) hx)
  | error e t => exact hE e t (h.of_error (hP s hs) hx)

theorem triple_pure {a : α} (h : ∀ s, P s → Q a s) : Triple P (pure a : EStateM ε σ α) Q E := h

theorem triple_throw (h : ∀ s, P s → E e s) : Triple P (throw e : EStateM ε σ α) Q E := h

theorem triple_look {g : σ → α} (h : ∀ s, P s → Q (g s) s) :
    Triple P (look g : EStateM ε σ α) Q E := h

theorem triple_modify {g : σ → σ} {Q : Unit → σ → Prop} (h : ∀ s, P s → Q () (g s)) :
    Triple P (modify g : EStateM ε σ Unit) Q E := h

/-- **The rule for a sequence.** -/
theorem Triple.bind (hx : Triple P x Q E) (hf : ∀ a, Triple (Q a) (f a) R E) :
    Triple P (x >>= f) R E := by
  intro s hs
  change match EStateM.bind x f s with
    | .ok b t => R b t
    | .error e t => E e t
  unfold EStateM.bind
  cases h : x s with
  | ok a u => exact hf a u (hx.of_ok hs h)
  | error e u => exact hx.of_error hs h

theorem triple_ite {c : Prop} [Decidable c] {y : EStateM ε σ α} (hx : c → Triple P x Q E)
    (hy : ¬ c → Triple P y Q E) : Triple P (if c then x else y) Q E := by
  split
  next h => exact hx h
  next h => exact hy h

/-- An error is handled from where it was thrown. -/
theorem Triple.tryCatch {handle : ε → EStateM ε σ α} (hx : Triple P x Q E')
    (hhandle : ∀ e, Triple (E' e) (handle e) Q E) : Triple P (tryCatch x handle) Q E := by
  intro s hs
  change match EStateM.tryCatch x handle s with
    | .ok a t => Q a t
    | .error e t => E e t
  unfold EStateM.tryCatch
  cases h : x s with
  | ok a u => exact hx.of_ok hs h
  | error e u => exact hhandle e u (hx.of_error hs h)

/-- A fact about no state. -/
theorem triple_of_imp {p : Prop} (h : p → Triple P x Q E) : Triple (fun s => p ∧ P s) x Q E :=
  fun s hs => h hs.1 s hs.2

theorem preserves_pure (a : α) : Preserves I (pure a : EStateM ε σ α) := triple_pure fun _ hs => hs

theorem preserves_throw (e : ε) : Preserves I (throw e : EStateM ε σ α) :=
  triple_throw fun _ hs => hs

theorem Preserves.bind (hx : Preserves I x) (hf : ∀ a, Preserves I (f a)) :
    Preserves I (x >>= f) := Triple.bind hx hf

theorem preserves_ite {c : Prop} [Decidable c] {y : EStateM ε σ α} (hx : Preserves I x)
    (hy : Preserves I y) : Preserves I (if c then x else y) :=
  triple_ite (fun _ => hx) fun _ => hy

theorem preserves_guard {c : Prop} [Decidable c] {k : Unit → EStateM ε σ α}
    (hk : Preserves I (k ())) : Preserves I (if c then throw e >>= k else k ()) := by
  split
  · exact fun _ hs => hs
  · exact hk

end Triple

/-! ## Programs that are alike -/

/-- From related states, both programs return the same, or throw the same, in related states. -/
def Alike (R : σ → σ → Prop) (x y : EStateM ε σ α) : Prop :=
  ∀ s t, R s t → match x s, y t with
    | .ok a s', .ok b t' => a = b ∧ R s' t'
    | .error e s', .error e' t' => e = e' ∧ R s' t'
    | _, _ => False

section Alike

variable {R : σ → σ → Prop} {y : EStateM ε σ α} {g : α → EStateM ε σ β}

/-- Programs that are alike leave related states. -/
theorem Alike.final (h : Alike R x y) {s t : σ} (hst : R s t) :
    R (Fallible.final (x s)) (Fallible.final (y t)) := by
  have hends := h s t hst
  cases hx : x s with
  | ok a s' =>
    cases hy : y t with
    | ok b t' =>
      rw [hx, hy] at hends
      exact hends.2
    | error e t' =>
      rw [hx, hy] at hends
      exact hends.elim
  | error e s' =>
    cases hy : y t with
    | ok b t' =>
      rw [hx, hy] at hends
      exact hends.elim
    | error e' t' =>
      rw [hx, hy] at hends
      exact hends.2

theorem alike_pure (a : α) : Alike R (pure a : EStateM ε σ α) (pure a) := fun _ _ h => ⟨rfl, h⟩

theorem alike_throw (e : ε) : Alike R (throw e : EStateM ε σ α) (throw e) := fun _ _ h => ⟨rfl, h⟩

theorem alike_modify {h h' : σ → σ} (hR : ∀ s t, R s t → R (h s) (h' t)) :
    Alike R (modify h : EStateM ε σ Unit) (modify h') := fun s t hst => ⟨rfl, hR s t hst⟩

/-- **The rule for sequences that are alike.** -/
theorem Alike.bind (hxy : Alike R x y) (hfg : ∀ a, Alike R (f a) (g a)) :
    Alike R (x >>= f) (y >>= g) := by
  intro s t hst
  change match EStateM.bind x f s, EStateM.bind y g t with
    | .ok a s', .ok b t' => a = b ∧ R s' t'
    | .error e s', .error e' t' => e = e' ∧ R s' t'
    | _, _ => False
  have hpart := hxy s t hst
  unfold EStateM.bind
  cases hx : x s with
  | ok a s' =>
    cases hy : y t with
    | ok b t' =>
      rw [hx, hy] at hpart
      obtain ⟨rfl, hnext⟩ := hpart
      exact hfg a s' t' hnext
    | error e t' =>
      rw [hx, hy] at hpart
      exact hpart.elim
  | error e s' =>
    cases hy : y t with
    | ok b t' =>
      rw [hx, hy] at hpart
      exact hpart.elim
    | error e' t' =>
      rw [hx, hy] at hpart
      exact hpart

theorem alike_ite {c : Prop} [Decidable c] {x' y' : EStateM ε σ α} (hxy : Alike R x y)
    (hxy' : Alike R x' y') : Alike R (if c then x else x') (if c then y else y') := by
  split
  · exact hxy
  · exact hxy'

theorem Alike.tryCatch {handle handle' : ε → EStateM ε σ α} (hxy : Alike R x y)
    (hhandle : ∀ e, Alike R (handle e) (handle' e)) :
    Alike R (tryCatch x handle) (tryCatch y handle') := by
  intro s t hst
  change match EStateM.tryCatch x handle s, EStateM.tryCatch y handle' t with
    | .ok a s', .ok b t' => a = b ∧ R s' t'
    | .error e s', .error e' t' => e = e' ∧ R s' t'
    | _, _ => False
  have hpart := hxy s t hst
  unfold EStateM.tryCatch
  cases hx : x s with
  | ok a s' =>
    cases hy : y t with
    | ok b t' =>
      rw [hx, hy] at hpart
      exact hpart
    | error e t' =>
      rw [hx, hy] at hpart
      exact hpart.elim
  | error e s' =>
    cases hy : y t with
    | ok b t' =>
      rw [hx, hy] at hpart
      exact hpart.elim
    | error e' t' =>
      rw [hx, hy] at hpart
      obtain ⟨rfl, hnext⟩ := hpart
      exact hhandle e s' t' hnext

end Alike

end Fallible
