/-
# A directory of files

A store is one directory of files, each with the time it was last written.  `Sweep`
deletes by that time alone: it knows nothing of what a file is for.

`Name` is how a file is called, times are in seconds.
-/
import Mathlib.Data.List.Nodup
import Mathlib.Data.Nat.Notation

namespace Storage

/-- What `ReadDir` and `Info` say of a file. -/
structure FileInfo (Name : Type*) where
  name : Name
  modTime : ℕ
  deriving DecidableEq, Repr

/-- The file was last written before the cutoff, `maxAge` ago. -/
def FileInfo.stale {Name : Type*} (maxAge now : ℕ) (f : FileInfo Name) : Bool :=
  f.modTime + maxAge < now

/-- A directory holds each name once. -/
structure FileStore (Name : Type*) where
  files : List (FileInfo Name) := []
  distinct : (files.map FileInfo.name).Nodup := by exact List.nodup_nil

namespace FileStore

variable {Name : Type*} [DecidableEq Name]

/-- The store has a file of the name. -/
def Has (s : FileStore Name) (name : Name) : Prop := ∃ f ∈ s.files, f.name = name

instance (s : FileStore Name) (name : Name) : Decidable (s.Has name) :=
  inferInstanceAs (Decidable (∃ f ∈ s.files, _))

/-! ## Operations -/

/-- The files but those `p` holds of. -/
def without (p : FileInfo Name → Bool) (s : FileStore Name) : FileStore Name where
  files := s.files.filter fun f => !p f
  distinct := s.distinct.sublist (List.filter_sublist.map _)

/-- `Remove`.  A file that is already gone is not an error. -/
def remove (name : Name) (s : FileStore Name) : FileStore Name :=
  s.without fun f => f.name = name

/-- Writes a file, new or not. -/
def write (name : Name) (now : ℕ) (s : FileStore Name) : FileStore Name where
  files := ⟨name, now⟩ :: (s.remove name).files
  distinct := by
    refine List.nodup_cons.mpr ⟨fun hmem => ?_, (s.remove name).distinct⟩
    obtain ⟨f, hf, hname⟩ := List.mem_map.mp hmem
    have hne := (List.mem_filter.mp hf).2
    simp only [hname, decide_true, Bool.not_true, Bool.false_eq_true] at hne

/-- `Sweep`: deletes every file older than `maxAge`, but for those the system refuses to
delete, and reports how many were removed. -/
def sweep (maxAge now : ℕ) (refused : List Name) (s : FileStore Name) : FileStore Name × ℕ :=
  let removable := fun f : FileInfo Name => f.stale maxAge now && f.name ∉ refused
  (s.without removable, s.files.countP removable)

/-- The file goes by another name, if it is there. -/
def rename (name newName : Name) (s : FileStore Name) : FileStore Name :=
  match s.files.find? fun f => f.name = name with
  | some f => (s.remove name).write newName f.modTime
  | none => s

/-! ## What the operations leave -/

variable {s : FileStore Name} {name newName : Name} {f g : FileInfo Name} {maxAge now : ℕ}

omit [DecidableEq Name] in
/-- The file of a name is unique. -/
theorem eq_of_name (hf : f ∈ s.files) (hg : g ∈ s.files) (hname : f.name = g.name) : f = g :=
  List.inj_on_of_nodup_map s.distinct hf hg hname

omit [DecidableEq Name] in
theorem mem_without {p : FileInfo Name → Bool} :
    f ∈ (s.without p).files ↔ f ∈ s.files ∧ p f = false := by
  rw [without, List.mem_filter, Bool.not_eq_true']

theorem has_remove : (s.remove name).Has newName ↔ newName ≠ name ∧ s.Has newName := by
  constructor
  · rintro ⟨f, hf, rfl⟩
    obtain ⟨hmem, hne⟩ := mem_without.mp hf
    exact ⟨of_decide_eq_false hne, f, hmem, rfl⟩
  · rintro ⟨hne, f, hmem, rfl⟩
    exact ⟨f, mem_without.mpr ⟨hmem, decide_eq_false hne⟩, rfl⟩

theorem has_write : (s.write name now).Has newName ↔ newName = name ∨ s.Has newName := by
  constructor
  · rintro ⟨f, hf, rfl⟩
    rcases List.mem_cons.mp hf with rfl | hf
    · exact Or.inl rfl
    · exact Or.inr (has_remove.mp ⟨f, hf, rfl⟩).2
  · intro h
    by_cases hname : newName = name
    · exact ⟨⟨name, now⟩, List.mem_cons_self, hname.symm⟩
    · obtain ⟨f, hf, hfname⟩ := has_remove.mpr ⟨hname, h.resolve_left hname⟩
      exact ⟨f, List.mem_cons_of_mem _ hf, hfname⟩

/-- **What `Sweep` leaves.**  A file stays if it is young, or could not be deleted. -/
theorem has_sweep {refused : List Name} (hf : f ∈ s.files) :
    (s.sweep maxAge now refused).1.Has f.name ↔ (f.stale maxAge now → f.name ∈ refused) := by
  have hkept : f ∈ (s.sweep maxAge now refused).1.files ↔
      (f.stale maxAge now → f.name ∈ refused) := by
    rw [sweep, mem_without, and_iff_right hf, Bool.and_eq_false_imp]
    simp only [decide_not, Bool.not_eq_false', decide_eq_true_eq]
  rw [← hkept]
  constructor
  · rintro ⟨g, hg, hname⟩
    rwa [← eq_of_name (mem_without.mp hg).1 hf hname]
  · exact fun h => ⟨f, h, rfl⟩

/-- `Sweep` writes nothing. -/
theorem Has.of_sweep {refused : List Name} (h : (s.sweep maxAge now refused).1.Has name) :
    s.Has name := by
  obtain ⟨f, hf, hname⟩ := h
  exact ⟨f, (mem_without.mp hf).1, hname⟩

/-- A new name is there if the old one was. -/
theorem has_rename_self (hne : ¬ s.Has newName) :
    (s.rename name newName).Has newName ↔ s.Has name := by
  unfold rename
  split
  next f hfind =>
    have hname : f.name = name := by simpa using List.find?_some hfind
    refine iff_of_true (has_write.mpr (Or.inl rfl)) ⟨f, List.mem_of_find?_eq_some hfind, hname⟩
  next hfind =>
    refine iff_of_false hne ?_
    rintro ⟨f, hf, hname⟩
    exact List.find?_eq_none.mp hfind f hf (decide_eq_true hname)

/-- The other files stay. -/
theorem has_rename_of_ne {other : Name} (hname : other ≠ name) (hnew : other ≠ newName) :
    (s.rename name newName).Has other ↔ s.Has other := by
  unfold rename
  split
  next f _ => rw [has_write, has_remove, or_iff_right hnew, and_iff_right hname]
  next => exact Iff.rfl

/-- Renaming brings up the new name only. -/
theorem Has.of_rename {other : Name} (hnew : other ≠ newName)
    (h : (s.rename name newName).Has other) : s.Has other := by
  unfold rename at h
  split at h
  next f _ => exact (has_remove.mp ((has_write.mp h).resolve_left hnew)).2
  next => exact h

end FileStore

end Storage
