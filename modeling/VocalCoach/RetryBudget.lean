/-
# The budget of retries

A stage is meant to be executed `maxStageRetries + 1` times at most, on whichever of the two
paths.  `keepsRetryBudget_iff` says when a run keeps to that: a member of a group whose
concurrent start fails transiently is handed to the loop of a stage that runs by itself with
the full budget of that loop, so the run must get to no member whose first
`maxStageRetries + 1` executions all fail transiently.

* `verdict_spec`: the last execution decides how a stage ends.
* `Accounts`: how often each stage is executed, one entry after the other.
-/
import VocalCoach.ParallelGroups
import Mathlib.Data.List.Nodup

namespace VocalCoach.Pipeline

variable {Job Data : Type} {entries : List (Entry Job Data)} {initial c : Context Job Data}
variable {fails : Failures} {stops : ℕ → Bool} {turn : ℕ}

/-! ## The last execution -/

/-- How a stage ends whose last execution comes to this. -/
def endsWith (required : Bool) : Option PipelineError → Verdict
  | none => .succeeded
  | some e => giveUp required e

/-- **The last execution decides**; those before it have failed transiently. -/
theorem settle_spec (required : Bool) (f : ℕ → Option PipelineError) (left k : ℕ) :
    ∃ m ≤ left, settle required f left k = (endsWith required (f (k + m)), m + 1) ∧
      (∀ i < m, FailsTransiently f (k + i)) ∧
      ∀ e, f (k + m) = some e → e.retry = .logical ∨ m = left := by
  induction left generalizing k with
  | zero =>
    refine ⟨0, Nat.le_refl 0, ?_, fun i hi => absurd hi (Nat.not_lt_zero i), fun _ _ => Or.inr rfl⟩
    show settle required f 0 k = (endsWith required (f k), 1)
    cases hf : f k with
    | none => exact settle_none hf
    | some e => exact settle_last hf
  | succ left ih =>
    cases hf : f k with
    | none =>
      refine ⟨0, Nat.zero_le _, ?_, fun i hi => absurd hi (Nat.not_lt_zero i), fun e he => ?_⟩
      · show settle required f (left + 1) k = (endsWith required (f k), 1)
        rw [hf, settle_none hf]
        rfl
      · rw [Nat.add_zero, hf] at he
        cases he
    | some e =>
      cases hretry : e.retry with
      | logical =>
        refine ⟨0, Nat.zero_le _, ?_, fun i hi => absurd hi (Nat.not_lt_zero i), fun e' he' => ?_⟩
        · show settle required f (left + 1) k = (endsWith required (f k), 1)
          rw [hf, settle_logical hf hretry]
          rfl
        · rw [Nat.add_zero, hf] at he'
          cases he'
          exact Or.inl hretry
      | transient =>
        obtain ⟨m, hm, hrest, hbefore, hlast⟩ := ih (k + 1)
        have hshift : k + (m + 1) = k + 1 + m := by omega
        refine ⟨m + 1, by omega, ?_, fun i hi => ?_, fun e' he' => ?_⟩
        · rw [settle]
          simp only [hf, hretry, hrest, hshift]
        · cases i with
          | zero => exact ⟨e, hf, hretry⟩
          | succ i =>
            have htransient := hbefore i (by omega)
            rwa [show k + 1 + i = k + (i + 1) from by omega] at htransient
        · rw [hshift] at he'
          rcases hlast e' he' with hlogical | hall
          · exact Or.inl hlogical
          · exact Or.inr (by omega)

/-- How often a stage is executed where it stands. -/
def Slot.executions (fails : Failures) (t : Slot Job Data) : ℕ :=
  if t.2 then 1 + (inGroup fails t.1).2 else (alone fails t.1).2

variable (fails) in
/-- **How a stage ends where it stands.** -/
theorem verdict_spec (t : Slot Job Data) :
    ∃ m ≤ allowedRetries t.2, t.executions fails = m + 1 ∧
      t.verdict fails = endsWith t.1.required (fails t.1.name m) ∧
      (∀ i < m, FailsTransiently (fails t.1.name) i) ∧
      ∀ e, fails t.1.name m = some e → e.retry = .logical ∨ m = allowedRetries t.2 := by
  obtain ⟨s, grouped⟩ := t
  cases grouped with
  | false =>
    obtain ⟨m, hm, hsettle, hbefore, hlast⟩ :=
      settle_spec s.required (fails s.name) maxStageRetries 0
    simp only [Nat.zero_add] at hsettle hbefore hlast
    exact ⟨m, hm, congrArg Prod.snd hsettle, congrArg Prod.fst hsettle, hbefore, hlast⟩
  | true =>
    show ∃ m ≤ maxStageRetries + 1, 1 + (inGroup fails s).2 = m + 1 ∧ (inGroup fails s).1 = _ ∧ _
    cases hf : fails s.name 0 with
    | none =>
      have hgroup : inGroup fails s = (.succeeded, 0) := by
        unfold inGroup
        rw [hf]
      refine ⟨0, Nat.zero_le _, by rw [hgroup]; rfl, by rw [hgroup, hf]; rfl,
        fun i hi => absurd hi (Nat.not_lt_zero i), fun e he => ?_⟩
      rw [hf] at he
      cases he
    | some e =>
      cases hretry : e.retry with
      | logical =>
        have hgroup : inGroup fails s = (giveUp s.required e, 0) := by
          unfold inGroup
          simp only [hf, hretry]
        refine ⟨0, Nat.zero_le _, by rw [hgroup]; rfl, by rw [hgroup, hf]; rfl,
          fun i hi => absurd hi (Nat.not_lt_zero i), fun e' he' => ?_⟩
        rw [hf] at he'
        cases he'
        exact Or.inl hretry
      | transient =>
        have hgroup : inGroup fails s = settle s.required (fails s.name) maxStageRetries 1 := by
          unfold inGroup
          simp only [hf, hretry]
        obtain ⟨m, hm, hsettle, hbefore, hlast⟩ :=
          settle_spec s.required (fails s.name) maxStageRetries 1
        have hshift : 1 + m = m + 1 := Nat.add_comm 1 m
        rw [hshift] at hsettle hlast
        refine ⟨m + 1, by omega, by rw [hgroup, hsettle]; omega, by rw [hgroup, hsettle],
          fun i hi => ?_, fun e' he' => ?_⟩
        · cases i with
          | zero => exact ⟨e, hf, hretry⟩
          | succ i =>
            have htransient := hbefore i (by omega)
            rwa [Nat.add_comm 1 i] at htransient
        · rcases hlast e' he' with hlogical | hall
          · exact Or.inl hlogical
          · exact Or.inr (by rw [hall]; rfl)

/-! ## What a run gets to -/

/-- None of these is required and fails for good. -/
def NoneRaises (fails : Failures) (ts : List (Slot Job Data)) : Prop :=
  ∀ t ∈ ts, ∀ e, ¬ Raises fails t.2 t.1 e

/-- The run gets to the slot `t`, with the slots `xs` before it: it is not stopped at the entry or
before it, and none of `xs` raises. -/
inductive Reaches (fails : Failures) (stops : ℕ → Bool) :
    List (Entry Job Data) → ℕ → List (Slot Job Data) → Slot Job Data → Prop
  | here {entry : Entry Job Data} {entries : List (Entry Job Data)} {turn : ℕ}
      {xs ys : List (Slot Job Data)} {t : Slot Job Data} (hruns : stops turn = false)
      (hslots : entry.slots = xs ++ t :: ys) (hnone : NoneRaises fails xs) :
      Reaches fails stops (entry :: entries) turn xs t
  | later {entry : Entry Job Data} {entries : List (Entry Job Data)} {turn : ℕ}
      {xs : List (Slot Job Data)} {t : Slot Job Data} (hruns : stops turn = false)
      (hnone : NoneRaises fails entry.slots) (h : Reaches fails stops entries (turn + 1) xs t) :
      Reaches fails stops (entry :: entries) turn (entry.slots ++ xs) t

section Members

theorem noneRaises_cons {t : Slot Job Data} {ts : List (Slot Job Data)} :
    NoneRaises fails (t :: ts) ↔ (∀ e, ¬ Raises fails t.2 t.1 e) ∧ NoneRaises fails ts :=
  List.forall_mem_cons

theorem noneRaises_append {xs ys : List (Slot Job Data)} :
    NoneRaises fails (xs ++ ys) ↔ NoneRaises fails xs ∧ NoneRaises fails ys :=
  List.forall_mem_append

/-- What is executed again is a member. -/
theorem runMembers_named {members : List (PipelineStage Job Data)} :
    ∀ name ∈ (runMembers fails c members).2, name ∈ members.map PipelineStage.name := by
  induction members with
  | nil => intro name hname; cases hname
  | cons s members ih =>
    intro name hname
    rw [runMembers] at hname
    dsimp only at hname
    rw [List.map_cons, List.mem_cons]
    cases hr : (inGroup fails s).1.result s c with
    | error e =>
      rw [hr] at hname
      exact Or.inl (List.eq_of_mem_replicate hname)
    | ok r =>
      rw [hr] at hname
      rcases List.mem_append.mp hname with hagain | hrest
      · exact Or.inl (List.eq_of_mem_replicate hagain)
      · exact Or.inr (ih name hrest)

variable (c fails) in
/-- **How often a member is executed again**: as often as it takes, where no member before it
raises, and never otherwise. -/
theorem runMembers_count {members xs ys : List (PipelineStage Job Data)} {s : PipelineStage Job Data}
    (hnames : (members.map PipelineStage.name).Nodup) (hsplit : members = xs ++ s :: ys) :
    (NoneRaises fails (xs.map fun s => (s, true)) →
        (runMembers fails c members).2.count s.name = (inGroup fails s).2) ∧
      (¬ NoneRaises fails (xs.map fun s => (s, true)) →
        (runMembers fails c members).2.count s.name = 0) := by
  induction members generalizing xs with
  | nil => cases xs <;> cases hsplit
  | cons first members ih =>
    rw [List.map_cons, List.nodup_cons] at hnames
    have hraises : ∀ e, Raises fails true first e ↔ (inGroup fails first).1.result first c = .error e :=
      fun e => (result_eq_error_iff (t := ((first, true) : Slot Job Data)) (c := c)).symm
    rw [runMembers]
    dsimp only
    cases xs with
    | nil =>
      obtain ⟨rfl, rfl⟩ := List.cons.inj hsplit
      refine ⟨fun _ => ?_, fun h => absurd (fun t ht => by cases ht) h⟩
      -- the others have other names
      have hothers : (runMembers fails c members).2.count first.name = 0 := by
        rw [List.count_eq_zero]
        exact fun hmem => hnames.1 (runMembers_named _ hmem)
      cases (inGroup fails first).1.result first c with
      | error e => exact List.count_replicate_self
      | ok r => rw [List.count_append, List.count_replicate_self, hothers, Nat.add_zero]
    | cons x xs =>
      obtain ⟨rfl, hrest⟩ := List.cons.inj hsplit
      have hne : first.name ≠ s.name := by
        intro heq
        refine hnames.1 ?_
        rw [hrest, heq]
        exact List.mem_map_of_mem (List.mem_append_right _ List.mem_cons_self)
      have hzero : ∀ n, (List.replicate n first.name).count s.name = 0 := fun n =>
        List.count_eq_zero.mpr fun hmem => hne (List.eq_of_mem_replicate hmem).symm
      rw [List.map_cons, noneRaises_cons]
      cases hr : (inGroup fails first).1.result first c with
      | error e =>
        refine ⟨fun hnone => absurd ((hraises e).mpr hr) (hnone.1 e), fun _ => ?_⟩
        exact hzero _
      | ok r =>
        have hfirst : ∀ e, ¬ Raises fails true first e := by
          intro e he
          rw [hraises, hr] at he
          cases he
        obtain ⟨hcount, hnever⟩ := ih hnames.2 hrest
        constructor
        · intro hnone
          rw [List.count_append, hzero, Nat.zero_add, hcount hnone.2]
        · intro hnone
          rw [List.count_append, hzero, Nat.zero_add, hnever fun h => hnone ⟨hfirst, h⟩]

variable (c fails) in
/-- The results of a group are those of its members, and its error is that of the first that
raises. -/
theorem runMembers_result (members : List (PipelineStage Job Data)) :
    (∀ results, (runMembers fails c members).1 = .ok results →
      NoneRaises fails (members.map fun s => (s, true)) ∧
        ∀ r ∈ results, ∃ s ∈ members, (inGroup fails s).1.result s c = .ok r) ∧
      ∀ e, (runMembers fails c members).1 = .error e → ∃ xs s ys, members = xs ++ s :: ys ∧
        NoneRaises fails (xs.map fun s => (s, true)) ∧ Raises fails true s e := by
  induction members with
  | nil =>
    refine ⟨fun results hresults => ?_, fun e he => by cases he⟩
    cases hresults
    exact ⟨fun t ht => (by cases ht), fun r hr => (by cases hr)⟩
  | cons first members ih =>
    have hraises : ∀ e, (inGroup fails first).1.result first c = .error e ↔ Raises fails true first e :=
      fun e => result_eq_error_iff (t := ((first, true) : Slot Job Data))
    rw [runMembers]
    dsimp only
    cases hr : (inGroup fails first).1.result first c with
    | error e =>
      refine ⟨fun results hresults => (by cases hresults), fun e' he' => ?_⟩
      cases he'
      exact ⟨[], first, members, rfl, fun t ht => (by cases ht), (hraises _).mp hr⟩
    | ok r =>
      have hfirst : ∀ e, ¬ Raises fails true first e := by
        intro e he
        rw [← hraises, hr] at he
        cases he
      cases hrest : (runMembers fails c members).1 with
      | error e =>
        refine ⟨fun results hresults => (by cases hresults), fun e' he' => ?_⟩
        cases he'
        obtain ⟨xs, s, ys, rfl, hnone, hs⟩ := ih.2 e hrest
        exact ⟨first :: xs, s, ys, rfl, noneRaises_cons.mpr ⟨hfirst, hnone⟩, hs⟩
      | ok results =>
        obtain ⟨hnone, hresults⟩ := ih.1 results hrest
        refine ⟨fun all hall => ?_, fun e he => (by cases he)⟩
        cases hall
        refine ⟨noneRaises_cons.mpr ⟨hfirst, hnone⟩, fun r' hr' => ?_⟩
        rcases List.mem_cons.mp hr' with rfl | hr'
        · exact ⟨first, List.mem_cons_self, hr⟩
        · obtain ⟨s, hs, hresult⟩ := hresults r' hr'
          exact ⟨s, List.mem_cons_of_mem _ hs, hresult⟩

end Members

/-! ## One entry -/

section Entry

variable {entry : Entry Job Data}

theorem slots_names (entry : Entry Job Data) :
    entry.slots.map (fun t => t.1.name) = entry.members.map PipelineStage.name := by
  rw [← Entry.slots_map_fst, List.map_map]
  rfl

variable (c fails entry) in
theorem runEntry_named : ∀ name ∈ (runEntry fails c entry).2,
    name ∈ entry.members.map PipelineStage.name := by
  intro name hname
  cases entry with
  | stage s =>
    rw [List.eq_of_mem_replicate hname]
    exact List.mem_cons_self
  | group members =>
    rcases List.mem_append.mp hname with hstarted | hagain
    · exact hstarted
    · exact runMembers_named name hagain

variable (c fails) in
/-- **How often the stages of an entry are executed**, up to the one that raises and after it. -/
theorem runEntry_count (hnames : (entry.members.map PipelineStage.name).Nodup)
    {xs ys : List (Slot Job Data)} {t : Slot Job Data} (hsplit : entry.slots = xs ++ t :: ys) :
    (NoneRaises fails xs → (runEntry fails c entry).2.count t.1.name = t.executions fails) ∧
      (¬ NoneRaises fails xs → (runEntry fails c entry).2.count t.1.name ≤ 1) := by
  cases entry with
  | stage s =>
    have hxs : xs = [] ∧ t = (s, false) := by
      cases xs with
      | nil => exact ⟨rfl, (List.cons.inj hsplit).1.symm⟩
      | cons x xs => cases xs <;> cases (List.cons.inj hsplit).2
    obtain ⟨rfl, rfl⟩ := hxs
    exact ⟨fun _ => List.count_replicate_self, fun h => absurd (fun t ht => by cases ht) h⟩
  | group members =>
    obtain ⟨as, bs, hmembers, rfl, hbs⟩ := List.map_eq_append_iff.mp hsplit
    obtain ⟨s, cs, rfl, rfl, -⟩ := List.map_eq_cons_iff.mp hbs
    -- every member is started once
    have hmem : s ∈ members := by
      rw [hmembers]
      exact List.mem_append_right _ List.mem_cons_self
    have hnodup : (members.map PipelineStage.name).Nodup := hnames
    have hstarted : (members.map PipelineStage.name).count s.name = 1 := by
      rw [hnodup.count, if_pos (List.mem_map_of_mem hmem)]
    obtain ⟨hagain, hnever⟩ := runMembers_count c fails hnodup hmembers
    show (NoneRaises fails _ → (members.map PipelineStage.name ++ _).count s.name = _) ∧
      (¬ NoneRaises fails _ → (members.map PipelineStage.name ++ _).count s.name ≤ 1)
    rw [List.count_append, hstarted]
    refine ⟨fun hnone => ?_, fun hraised => ?_⟩
    · rw [hagain hnone]
      rfl
    · have hzero := hnever hraised
      omega

variable (c fails) in
theorem runEntry_result (entry : Entry Job Data) :
    (∀ results, (runEntry fails c entry).1 = .ok results → NoneRaises fails entry.slots ∧
        ∀ r ∈ results, ∃ t ∈ entry.slots, (t.verdict fails).result t.1 c = .ok r) ∧
      ∀ e, (runEntry fails c entry).1 = .error e → ∃ xs t ys, entry.slots = xs ++ t :: ys ∧
        NoneRaises fails xs ∧ Raises fails t.2 t.1 e := by
  cases entry with
  | stage s =>
    have hraises : ∀ e, (alone fails s).1.result s c = .error e ↔ Raises fails false s e :=
      fun e => result_eq_error_iff (t := ((s, false) : Slot Job Data))
    rw [runEntry]
    dsimp only
    cases hr : (alone fails s).1.result s c with
    | error e =>
      refine ⟨fun results hresults => (by cases hresults), fun e' he' => ?_⟩
      cases he'
      exact ⟨[], (s, false), [], rfl, fun t ht => (by cases ht), (hraises _).mp hr⟩
    | ok r =>
      refine ⟨fun results hresults => ?_, fun e' he' => (by cases he')⟩
      cases hresults
      refine ⟨noneRaises_cons.mpr ⟨fun e he => ?_, fun t ht => (by cases ht)⟩, fun r' hr' => ?_⟩
      · rw [← hraises, hr] at he
        cases he
      · rw [List.mem_singleton.mp hr']
        exact ⟨(s, false), List.mem_cons_self, hr⟩
  | group members =>
    obtain ⟨hok, herror⟩ := runMembers_result c fails members
    refine ⟨fun results hresults => ?_, fun e he => ?_⟩
    · obtain ⟨hnone, hmembers⟩ := hok results hresults
      refine ⟨hnone, fun r hr => ?_⟩
      obtain ⟨s, hs, hresult⟩ := hmembers r hr
      exact ⟨(s, true), List.mem_map_of_mem hs, hresult⟩
    · obtain ⟨xs, s, ys, rfl, hnone, hs⟩ := herror e he
      refine ⟨xs.map fun s => (s, true), (s, true), ys.map fun s => (s, true), ?_, hnone, hs⟩
      rw [Entry.slots, List.map_append, List.map_cons]

end Entry

/-! ## A run -/

/-- How a run executes its stages: as often as it takes, where it gets to them; once at most,
where a member of the same group has raised. -/
structure Accounts (fails : Failures) (stops : ℕ → Bool) (entries : List (Entry Job Data))
    (turn : ℕ) (report : Report Job Data) : Prop where
  named : ∀ name ∈ report.executed, name ∈ (flatten entries).map PipelineStage.name
  reached : ∀ xs t, Reaches fails stops entries turn xs t →
    report.executed.count t.1.name = t.executions fails
  others : ∀ t ∈ slots entries, (∀ xs, ¬ Reaches fails stops entries turn xs t) →
    report.executed.count t.1.name ≤ 1
  saved : ∀ p ∈ report.saved, ∃ xs t c, Reaches fails stops entries turn xs t ∧
    (t.verdict fails).result t.1 c = .ok p.result
  raised : ∀ e, report.outcome = .raised e ↔
    ∃ xs t, Reaches fails stops entries turn xs t ∧ Raises fails t.2 t.1 e
  through : (∀ e, report.outcome ≠ .raised e) → ∀ t ∈ slots entries,
    0 < report.executed.count t.1.name → ∃ xs, Reaches fails stops entries turn xs t

theorem Reaches.mem {xs : List (Slot Job Data)} {t : Slot Job Data}
    (h : Reaches fails stops entries turn xs t) : ∃ ys, slots entries = xs ++ t :: ys := by
  induction h with
  | @here entry entries _ xs ys t _ hslots _ =>
    refine ⟨ys ++ slots entries, ?_⟩
    rw [slots, List.flatMap_cons, hslots, List.append_assoc, List.cons_append]
    rfl
  | @later entry entries _ xs t _ _ _ ih =>
    obtain ⟨ys, hys⟩ := ih
    refine ⟨ys, ?_⟩
    rw [slots, List.flatMap_cons, ← slots, hys, List.append_assoc]

/-- What comes before is none that raises, and the run gets to each of it. -/
theorem Reaches.before {xs : List (Slot Job Data)} {t : Slot Job Data}
    (h : Reaches fails stops entries turn xs t) :
    NoneRaises fails xs ∧ ∀ u ∈ xs, ∃ zs, Reaches fails stops entries turn zs u := by
  induction h with
  | @here entry entries _ xs ys t hruns hslots hnone =>
    refine ⟨hnone, fun u hu => ?_⟩
    obtain ⟨as, bs, rfl⟩ := List.append_of_mem hu
    have hsplit : entry.slots = as ++ u :: (bs ++ t :: ys) := by
      rw [hslots, List.append_assoc, List.cons_append]
    exact ⟨as, .here hruns hsplit (noneRaises_append.mp hnone).1⟩
  | @later entry entries _ xs t hruns hnone _ ih =>
    refine ⟨noneRaises_append.mpr ⟨hnone, ih.1⟩, fun u hu => ?_⟩
    rcases List.mem_append.mp hu with hu | hu
    · obtain ⟨as, bs, hslots⟩ := List.append_of_mem hu
      rw [hslots] at hnone
      exact ⟨as, .here hruns hslots (noneRaises_append.mp hnone).1⟩
    · obtain ⟨zs, hzs⟩ := ih.2 u hu
      exact ⟨_, .later hruns hnone hzs⟩

/-- Where an entry raises, the run gets to nothing after it. -/
theorem Reaches.cons_error {entry : Entry Job Data} {xs as bs : List (Slot Job Data)}
    {t u : Slot Job Data} {e : PipelineError} (hslots : entry.slots = as ++ u :: bs)
    (hraises : Raises fails u.2 u.1 e) (h : Reaches fails stops (entry :: entries) turn xs t) :
    ∃ ys, entry.slots = xs ++ t :: ys ∧ NoneRaises fails xs := by
  cases h with
  | here _ hsplit hnone => exact ⟨_, hsplit, hnone⟩
  | later _ hnone _ =>
    refine absurd hraises (hnone u ?_ e)
    rw [hslots]
    exact List.mem_append_right _ List.mem_cons_self

/-- Two elements of a list are the same, or one comes before the other. -/
theorem split_cases {α : Type} {as bs xs ys : List α} {a b : α}
    (h : as ++ a :: bs = xs ++ b :: ys) : (as = xs ∧ a = b) ∨ a ∈ xs ∨ b ∈ as := by
  rcases List.append_eq_append_iff.mp h with ⟨cs, rfl, hcs⟩ | ⟨cs, rfl, hcs⟩
  · cases cs with
    | nil => exact Or.inl ⟨(List.append_nil _).symm, (List.cons.inj hcs).1⟩
    | cons c cs =>
      rw [(List.cons.inj hcs).1]
      exact Or.inr (Or.inl (List.mem_append_right _ List.mem_cons_self))
  · cases cs with
    | nil => exact Or.inl ⟨List.append_nil _, (List.cons.inj hcs).1.symm⟩
    | cons c cs =>
      rw [(List.cons.inj hcs).1]
      exact Or.inr (Or.inr (List.mem_append_right _ List.mem_cons_self))

/-- A list is split in one way at the first element that raises. -/
theorem first_raises_unique {as bs xs ys : List (Slot Job Data)} {t u : Slot Job Data}
    {e e' : PipelineError} (hsplit : as ++ u :: bs = xs ++ t :: ys) (has : NoneRaises fails as)
    (hxs : NoneRaises fails xs) (hu : Raises fails u.2 u.1 e) (ht : Raises fails t.2 t.1 e') :
    u = t := by
  rcases split_cases hsplit with ⟨-, heq⟩ | hmem | hmem
  · exact heq
  · exact absurd hu (hxs u hmem e)
  · exact absurd ht (has t hmem e')

theorem raises_unique {t : Slot Job Data} {e e' : PipelineError} (h : Raises fails t.2 t.1 e)
    (h' : Raises fails t.2 t.1 e') : e = e' := by
  rw [← verdict_eq_raised] at h h'
  exact Verdict.raised.inj (h.symm.trans h')

section Cons

variable {entry : Entry Job Data} {executed : List String} {as bs : List (Slot Job Data)}
  {u : Slot Job Data}

/-- What an entry executes of its own, and nothing of the entries after it. -/
structure EntryAccounts (fails : Failures) (entry : Entry Job Data)
    (entries : List (Entry Job Data)) (executed : List String) : Prop where
  named : ∀ name ∈ executed, name ∈ entry.members.map PipelineStage.name
  reached : ∀ xs ys t, entry.slots = xs ++ t :: ys → NoneRaises fails xs →
    executed.count t.1.name = t.executions fails
  others : ∀ xs ys t, entry.slots = xs ++ t :: ys → ¬ NoneRaises fails xs →
    executed.count t.1.name ≤ 1
  later : ∀ t ∈ slots entries, executed.count t.1.name = 0

/-- The names of an entry are none of those after it. -/
def Apart (entry : Entry Job Data) (entries : List (Entry Job Data)) : Prop :=
  ∀ name ∈ entry.members.map PipelineStage.name,
    ∀ name' ∈ (flatten entries).map PipelineStage.name, name ≠ name'

theorem runEntry_accounts (c : Context Job Data)
    (hnames : (entry.members.map PipelineStage.name).Nodup) (hapart : Apart entry entries) :
    EntryAccounts fails entry entries (runEntry fails c entry).2 where
  named := runEntry_named c fails entry
  reached _ _ _ hsplit := (runEntry_count c fails hnames hsplit).1
  others _ _ _ hsplit := (runEntry_count c fails hnames hsplit).2
  later t ht := by
    have hlater : t.1.name ∈ (flatten entries).map PipelineStage.name := by
      rw [← slots_map_fst, List.map_map]
      exact List.mem_map_of_mem ht
    rw [List.count_eq_zero]
    exact fun hmem => hapart _ (runEntry_named c fails entry _ hmem) _ hlater rfl

/-- A run that is stopped gets to nothing. -/
theorem accounts_stopped (hstops : stops turn = true) :
    Accounts fails stops (entry :: entries) turn { outcome := .interrupted, context := c } := by
  have hnever : ∀ xs t, ¬ Reaches fails stops (entry :: entries) turn xs t := by
    intro xs t h
    cases h with
    | here hgoes _ _ | later hgoes _ _ =>
      rw [hstops] at hgoes
      cases hgoes
  refine ⟨fun name hname => (by cases hname), fun xs t h => absurd h (hnever xs t),
    fun t _ _ => Nat.zero_le 1, fun p hp => (by cases hp), fun e => ⟨fun h => (by cases h), ?_⟩,
    fun _ t _ hcount => absurd hcount (Nat.lt_irrefl 0)⟩
  rintro ⟨xs, t, h, -⟩
  exact absurd h (hnever xs t)

/-- A run that ends with an entry that raises. -/
theorem accounts_raised (h : EntryAccounts fails entry entries executed)
    (hgoes : stops turn = false) (hslots : entry.slots = as ++ u :: bs)
    (has : NoneRaises fails as) {e : PipelineError} (hu : Raises fails u.2 u.1 e)
    (published : List (String × ℕ × ℕ)) :
    Accounts fails stops (entry :: entries) turn
      { published, executed, outcome := .raised e, context := c } := by
  refine ⟨fun name hname => ?_, fun xs t hreaches => ?_, fun t ht hunreached => ?_,
    fun p hp => (by cases hp), fun e' => ⟨fun heq => ?_, ?_⟩, fun hnone => absurd rfl (hnone e)⟩
  · rw [flatten, List.flatMap_cons, List.map_append]
    exact List.mem_append_left _ (h.named name hname)
  · obtain ⟨ys, hsplit, hxs⟩ := hreaches.cons_error hslots hu
    exact h.reached _ _ _ hsplit hxs
  · -- after the stage that raises, in the same group or in a later entry
    rw [slots, List.flatMap_cons, List.mem_append] at ht
    rcases ht with ht | ht
    · obtain ⟨xs, ys, hsplit⟩ := List.append_of_mem ht
      exact h.others _ _ _ hsplit fun hxs => hunreached xs (.here hgoes hsplit hxs)
    · rw [h.later t ht]
      exact Nat.zero_le 1
  · cases heq
    exact ⟨as, u, .here hgoes hslots has, hu⟩
  · rintro ⟨xs, t, hreaches, ht⟩
    obtain ⟨ys, hsplit, hxs⟩ := hreaches.cons_error hslots hu
    obtain rfl := first_raises_unique (hslots.symm.trans hsplit) has hxs hu ht
    rw [raises_unique hu ht]

/-- A run that goes on after an entry of which no stage raises. -/
theorem accounts_goes_on {rest : Report Job Data} {saved : List (Progress Data)}
    (h : EntryAccounts fails entry entries executed)
    (hrest : Accounts fails stops entries (turn + 1) rest) (hapart : Apart entry entries)
    (hgoes : stops turn = false) (hnone : NoneRaises fails entry.slots)
    (hsaved : ∀ p ∈ saved, ∃ t ∈ entry.slots, (t.verdict fails).result t.1 c = .ok p.result)
    (published : List (String × ℕ × ℕ)) :
    Accounts fails stops (entry :: entries) turn
      { rest with
        published := published ++ rest.published
        executed := executed ++ rest.executed
        saved := saved ++ rest.saved } := by
  have hzero : ∀ t ∈ entry.slots, rest.executed.count t.1.name = 0 := by
    intro t ht
    have hin : t.1.name ∈ entry.members.map PipelineStage.name := by
      rw [← slots_names]
      exact List.mem_map_of_mem ht
    rw [List.count_eq_zero]
    exact fun hmem => hapart _ hin _ (hrest.named _ hmem) rfl
  -- the run gets to every slot of the entry
  have hhere : ∀ t ∈ entry.slots, ∃ xs, Reaches fails stops (entry :: entries) turn xs t := by
    intro t ht
    obtain ⟨xs, ys, hsplit⟩ := List.append_of_mem ht
    rw [hsplit] at hnone
    exact ⟨xs, .here hgoes hsplit (noneRaises_append.mp hnone).1⟩
  refine ⟨fun name hname => ?_, fun xs t hreaches => ?_, fun t ht hunreached => ?_, fun p hp => ?_,
    fun e => ?_, fun hnot t ht hpos => ?_⟩
  · rw [flatten, List.flatMap_cons, List.map_append, List.mem_append, ← flatten]
    exact (List.mem_append.mp hname).imp (h.named name) (hrest.named name)
  · rw [List.count_append]
    cases hreaches with
    | here _ hsplit hxs =>
      rw [h.reached _ _ _ hsplit hxs, hzero t (by simp [hsplit]), Nat.add_zero]
    | later _ _ hreaches =>
      obtain ⟨ys, hys⟩ := hreaches.mem
      rw [h.later t (by simp [hys]), Nat.zero_add, hrest.reached _ _ hreaches]
  · rw [slots, List.flatMap_cons, List.mem_append] at ht
    rw [List.count_append]
    rcases ht with ht | ht
    · obtain ⟨xs, hxs⟩ := hhere t ht
      exact absurd hxs (hunreached xs)
    · rw [h.later t ht, Nat.zero_add]
      exact hrest.others t ht fun xs hreaches => hunreached _ (.later hgoes hnone hreaches)
  · rcases List.mem_append.mp hp with hp | hp
    · obtain ⟨t, ht, hresult⟩ := hsaved p hp
      obtain ⟨xs, hxs⟩ := hhere t ht
      exact ⟨xs, t, c, hxs, hresult⟩
    · obtain ⟨xs, t, c', hreaches, hresult⟩ := hrest.saved p hp
      exact ⟨_, t, c', .later hgoes hnone hreaches, hresult⟩
  · refine (hrest.raised e).trans ⟨?_, ?_⟩
    · rintro ⟨xs, t, hreaches, ht⟩
      exact ⟨_, t, .later hgoes hnone hreaches, ht⟩
    · rintro ⟨xs, t, hreaches, ht⟩
      cases hreaches with
      | here _ hsplit _ => exact absurd ht (hnone t (by simp [hsplit]) e)
      | later _ _ hreaches => exact ⟨_, t, hreaches, ht⟩
  · rw [slots, List.flatMap_cons, List.mem_append] at ht
    rcases ht with ht | ht
    · exact hhere t ht
    · rw [List.count_append, h.later t ht, Nat.zero_add] at hpos
      obtain ⟨xs, hreaches⟩ := hrest.through hnot t ht hpos
      exact ⟨_, .later hgoes hnone hreaches⟩

end Cons

/-- **What a run executes.** -/
theorem runEntries_accounts (hnames : ((flatten entries).map PipelineStage.name).Nodup)
    (plan : Plan Job Data) (fails : Failures) (stops : ℕ → Bool) (turn position : ℕ)
    (c : Context Job Data) :
    Accounts fails stops entries turn (runEntries plan fails stops entries turn position c) := by
  induction entries generalizing turn position c with
  | nil =>
    rw [runEntries]
    refine ⟨fun name hname => (by cases hname), fun xs t h => (by cases h), fun t ht => (by cases ht),
      fun p hp => (by cases hp), fun e => ⟨fun h => (by cases h), ?_⟩, fun _ t ht => (by cases ht)⟩
    rintro ⟨xs, t, h, -⟩
    cases h
  | cons entry entries ih =>
    rw [flatten, List.flatMap_cons, List.map_append, ← flatten, List.nodup_append] at hnames
    obtain ⟨hmembers, hrest, hapart⟩ := hnames
    rw [runEntries]
    cases hruns : stops turn with
    | true =>
      rw [if_pos rfl]
      exact accounts_stopped hruns
    | false =>
      have haccounts := @runEntry_accounts _ _ entries fails entry c hmembers hapart
      obtain ⟨hok, herror⟩ := runEntry_result c fails entry
      rw [if_neg Bool.false_ne_true]
      cases hentry : runEntry fails c entry with
      | mk result executed =>
        rw [hentry] at haccounts hok herror
        cases result with
        | error e =>
          obtain ⟨as, u, bs, hslots, has, hu⟩ := herror e rfl
          exact accounts_raised haccounts hruns hslots has hu _
        | ok results =>
          obtain ⟨hnone, hresults⟩ := hok results rfl
          refine accounts_goes_on (c := c) haccounts (ih hrest _ _ _) hapart hruns hnone
            (fun p hp => ?_) _
          refine hresults p.result ?_
          rw [← saves_map_result plan position results]
          exact List.mem_map_of_mem hp

/-! ## The budget -/

/-- The last attempt that is allowed has been made, and it failed: the attempts before it failed
transiently, and it failed logically or was the last of `maxStageRetries + 1`. -/
def LastAttemptFailed (f : ℕ → Option PipelineError) (executions : ℕ) (e : PipelineError) : Prop :=
  ∃ n < executions, n ≤ maxStageRetries ∧ f n = some e ∧
    (e.retry = .logical ∨ n = maxStageRetries) ∧ ∀ k < n, FailsTransiently f k

theorem LastAttemptFailed.unique {f : ℕ → Option PipelineError} {executions : ℕ}
    {e e' : PipelineError} (h : LastAttemptFailed f executions e)
    (h' : LastAttemptFailed f executions e') : e = e' := by
  obtain ⟨n, -, hmax, hf, hend, hbefore⟩ := h
  obtain ⟨n', -, hmax', hf', hend', hbefore'⟩ := h'
  -- no attempt that fails transiently comes before the last but as the last of all
  have hlast : ∀ {i j : ℕ} {e : PipelineError}, j ≤ maxStageRetries → f i = some e →
      (e.retry = .logical ∨ i = maxStageRetries) → (∀ k < j, FailsTransiently f k) → j ≤ i := by
    intro i j e hj hi hend hall
    by_contra hlt
    obtain ⟨e', he', htransient⟩ := hall i (by omega)
    obtain rfl : e' = e := Option.some.inj (he'.symm.trans hi)
    rcases hend with hlogical | hend
    · rw [htransient] at hlogical
      cases hlogical
    · omega
  have hle := hlast hmax hf' hend' hbefore
  have hge := hlast hmax' hf hend hbefore'
  obtain rfl : n = n' := by omega
  exact Option.some.inj (hf.symm.trans hf')

/-- **Retry budget and outcome** of a run of these stages. -/
structure KeepsRetryBudget (fails : Failures) (stages : List (PipelineStage Job Data))
    (report : Report Job Data) : Prop where
  budget : ∀ name, report.executed.count name ≤ maxStageRetries + 1
  /-- Nothing is executed after an attempt that failed logically. -/
  logical : ∀ name k e, fails name k = some e → e.retry = .logical →
    report.executed.count name ≤ k + 1
  skipped : ∀ s ∈ stages, ∀ p ∈ report.saved, p.result.stage = s.name →
    (p.result.status = .skipped ↔ s.required = false ∧
      ∃ e, LastAttemptFailed (fails s.name) (report.executed.count s.name) e)
  /-- The error is that of the first required stage whose last attempt failed. -/
  raised : ∀ e, report.outcome = .raised e ↔ ∃ before s after, stages = before ++ s :: after ∧
    s.required = true ∧ LastAttemptFailed (fails s.name) (report.executed.count s.name) e ∧
      ∀ t ∈ before, t.required = true →
        ∀ e', ¬ LastAttemptFailed (fails t.name) (report.executed.count t.name) e'

/-- A slot is executed more often than allowed only in a group, and where all the executions
allowed have failed transiently. -/
theorem executions_le_iff (t : Slot Job Data) :
    t.executions fails ≤ maxStageRetries + 1 ↔
      ¬ (t.2 = true ∧ ∀ k ≤ maxStageRetries, FailsTransiently (fails t.1.name) k) := by
  obtain ⟨m, hm, hexecutions, -, hbefore, hlast⟩ := verdict_spec fails t
  rw [hexecutions]
  constructor
  · rintro hle ⟨hgrouped, hall⟩
    -- the execution that decides is one of those that fail transiently
    obtain ⟨e, he, htransient⟩ := hall m (by omega)
    rw [hgrouped] at hlast
    rcases hlast e he with hlogical | hmax
    · rw [htransient] at hlogical
      cases hlogical
    · have hallowed : allowedRetries true = maxStageRetries + 1 := rfl
      omega
  · intro hnot
    by_contra hmore
    refine hnot ⟨?_, fun k hk => hbefore k (by omega)⟩
    by_contra hgrouped
    have hallowed : allowedRetries t.2 = maxStageRetries := by
      rw [Bool.not_eq_true] at hgrouped
      rw [hgrouped]
      rfl
    omega

/-- **Within the budget, the attempt that decides is the last one allowed.** -/
theorem lastAttemptFailed_iff {t : Slot Job Data} (ht : t.executions fails ≤ maxStageRetries + 1)
    {e : PipelineError} :
    LastAttemptFailed (fails t.1.name) (t.executions fails) e ↔
      t.verdict fails = giveUp t.1.required e := by
  obtain ⟨m, hm, hexecutions, hverdict, hbefore, hlast⟩ := verdict_spec fails t
  rw [hexecutions] at ht ⊢
  have hgaveUp : t.verdict fails = giveUp t.1.required e ↔ fails t.1.name m = some e := by
    rw [hverdict]
    cases hf : fails t.1.name m with
    | none =>
      cases hrequired : t.1.required <;> simp [endsWith, giveUp]
    | some e' =>
      cases hrequired : t.1.required <;> simp [endsWith, giveUp]
  rw [hgaveUp]
  constructor
  · rintro ⟨n, hn, hmax, hf, hend, -⟩
    rcases Nat.lt_or_ge n m with hlt | hge
    · obtain ⟨e', hf', htransient⟩ := hbefore n hlt
      obtain rfl : e' = e := Option.some.inj (hf'.symm.trans hf)
      rcases hend with hlogical | hend
      · rw [htransient] at hlogical
        cases hlogical
      · omega
    · rwa [show n = m from by omega] at hf
  · intro hf
    refine ⟨m, Nat.lt_succ_self m, by omega, hf, ?_, hbefore⟩
    rcases hlast e hf with hlogical | hmax
    · exact Or.inl hlogical
    · right
      unfold allowedRetries at hmax
      split_ifs at hmax <;> omega

section Accounts

variable {report : Report Job Data} (h : Accounts fails stops entries turn report)

include h

/-- A stage is executed as often as it takes, or once at most. -/
theorem Accounts.count_cases (name : String) :
    (∃ xs t, Reaches fails stops entries turn xs t ∧ t.1.name = name ∧
      report.executed.count name = t.executions fails) ∨ report.executed.count name ≤ 1 := by
  by_cases hname : name ∈ report.executed
  · obtain ⟨s, hs, rfl⟩ := List.mem_map.mp (h.named name hname)
    rw [← slots_map_fst] at hs
    obtain ⟨t, ht, rfl⟩ := List.mem_map.mp hs
    by_cases hreached : ∃ xs, Reaches fails stops entries turn xs t
    · obtain ⟨xs, hxs⟩ := hreached
      exact Or.inl ⟨xs, t, hxs, rfl, h.reached xs t hxs⟩
    · exact Or.inr (h.others t ht fun xs hxs => hreached ⟨xs, hxs⟩)
  · right
    rw [List.count_eq_zero.mpr hname]
    exact Nat.zero_le 1

/-- What a stage that the run gets to ends with, read off its attempts. -/
theorem Accounts.lastAttemptFailed_iff {xs : List (Slot Job Data)} {t : Slot Job Data}
    (hwithin : ∀ xs t, Reaches fails stops entries turn xs t →
      t.executions fails ≤ maxStageRetries + 1)
    (ht : Reaches fails stops entries turn xs t) {e : PipelineError} :
    LastAttemptFailed (fails t.1.name) (report.executed.count t.1.name) e ↔
      t.verdict fails = giveUp t.1.required e := by
  rw [h.reached xs t ht, Pipeline.lastAttemptFailed_iff (hwithin xs t ht)]

theorem Accounts.raises_iff {xs : List (Slot Job Data)} {t : Slot Job Data}
    (hwithin : ∀ xs t, Reaches fails stops entries turn xs t →
      t.executions fails ≤ maxStageRetries + 1)
    (ht : Reaches fails stops entries turn xs t) {e : PipelineError} :
    Raises fails t.2 t.1 e ↔ t.1.required = true ∧
      LastAttemptFailed (fails t.1.name) (report.executed.count t.1.name) e := by
  rw [h.lastAttemptFailed_iff hwithin ht, ← verdict_eq_raised]
  constructor
  · intro hraised
    have hrequired : t.1.required = true := (verdict_eq_raised.mp hraised).1
    exact ⟨hrequired, by rw [hraised, hrequired]; rfl⟩
  · rintro ⟨hrequired, hverdict⟩
    rw [hverdict, hrequired]
    rfl

/-- **A run in which no stage is executed too often keeps its budget.** -/
theorem Accounts.keepsRetryBudget (hnames : ((flatten entries).map PipelineStage.name).Nodup)
    (hwithin : ∀ xs t, Reaches fails stops entries turn xs t →
      t.executions fails ≤ maxStageRetries + 1) :
    KeepsRetryBudget fails (flatten entries) report := by
  have hslot : ∀ s ∈ flatten entries, ∃ t ∈ slots entries, t.1 = s := by
    intro s hs
    rw [← slots_map_fst] at hs
    exact List.mem_map.mp hs
  -- the first stage that raises is the first whose last attempt failed
  have hfirst : ∀ e, report.outcome = .raised e → ∃ before s after,
      flatten entries = before ++ s :: after ∧ s.required = true ∧
        LastAttemptFailed (fails s.name) (report.executed.count s.name) e ∧
          ∀ t ∈ before, t.required = true →
            ∀ e', ¬ LastAttemptFailed (fails t.name) (report.executed.count t.name) e' := by
    intro e he
    obtain ⟨xs, t, ht, hraises⟩ := (h.raised e).mp he
    obtain ⟨ys, hys⟩ := ht.mem
    obtain ⟨hnone, hbefore⟩ := ht.before
    obtain ⟨hrequired, hlast⟩ := (h.raises_iff hwithin ht).mp hraises
    refine ⟨xs.map Prod.fst, t.1, ys.map Prod.fst, ?_, hrequired, hlast, ?_⟩
    · rw [← slots_map_fst, hys, List.map_append, List.map_cons]
    · rintro _ hmem hrequired' e' hlast'
      obtain ⟨u, hu, rfl⟩ := List.mem_map.mp hmem
      obtain ⟨zs, hzs⟩ := hbefore u hu
      exact hnone u hu e' ((h.raises_iff hwithin hzs).mpr ⟨hrequired', hlast'⟩)
  refine ⟨fun name => ?_, fun name k e hfails hlogical => ?_, fun s hs p hp hstage => ?_,
    fun e => ⟨hfirst e, ?_⟩⟩
  · rcases h.count_cases name with ⟨xs, t, ht, -, hcount⟩ | hcount
    · rw [hcount]
      exact hwithin xs t ht
    · omega
  · rcases h.count_cases name with ⟨xs, t, ht, rfl, hcount⟩ | hcount
    · obtain ⟨m, -, hexecutions, -, hbefore, -⟩ := verdict_spec fails t
      rw [hcount, hexecutions]
      by_contra hmore
      -- an attempt that is not the last has failed transiently
      obtain ⟨e', he', htransient⟩ := hbefore k (by omega)
      obtain rfl : e' = e := Option.some.inj (he'.symm.trans hfails)
      rw [htransient] at hlogical
      cases hlogical
    · omega
  · obtain ⟨xs, t, c, ht, hresult⟩ := h.saved p hp
    obtain ⟨ys, hys⟩ := ht.mem
    have hmem : t.1 ∈ flatten entries := by
      rw [← slots_map_fst, hys]
      exact List.mem_map_of_mem (List.mem_append_right _ List.mem_cons_self)
    have hname : t.1.name = s.name := (stage_of_result hresult).symm.trans hstage
    obtain rfl : t.1 = s := List.inj_on_of_nodup_map hnames hmem hs hname
    simp only [h.lastAttemptFailed_iff hwithin ht]
    cases hverdict : t.verdict fails with
    | succeeded =>
      rw [hverdict] at hresult
      rw [← show t.1.run c = p.result from Except.ok.inj hresult]
      cases t.1.required <;> simp [PipelineStage.run, giveUp]
    | skipped e =>
      rw [hverdict] at hresult
      rw [← show skippedResult t.1 e = p.result from Except.ok.inj hresult,
        required_of_skipped hverdict]
      simp [skippedResult, giveUp]
    | raised e =>
      rw [hverdict] at hresult
      cases hresult
  · rintro ⟨before, s, after, hsplit, hrequired, hlast, hnone⟩
    by_cases hraised : ∃ e', report.outcome = .raised e'
    · obtain ⟨e', he'⟩ := hraised
      obtain ⟨before', s', after', hsplit', hrequired', hlast', hnone'⟩ := hfirst e' he'
      rcases split_cases (hsplit.symm.trans hsplit') with ⟨-, rfl⟩ | hmem | hmem
      · rw [he', hlast.unique hlast']
      · exact absurd hlast (hnone' s hmem hrequired e)
      · exact absurd hlast' (hnone s' hmem hrequired' e')
    · obtain ⟨t, ht, rfl⟩ := hslot s (by rw [hsplit]; exact List.mem_append_right _ List.mem_cons_self)
      obtain ⟨n, hn, -⟩ := id hlast
      obtain ⟨xs, hxs⟩ := h.through (not_exists.mp hraised) t ht (Nat.zero_lt_of_lt hn)
      exact (h.raised e).mpr ⟨xs, t, hxs, (h.raises_iff hwithin hxs).mpr ⟨hrequired, hlast⟩⟩

end Accounts

/-- **A run keeps its budget** if and only if it gets to no member of a group whose executions
all fail transiently, as many as are allowed.  The loop of a stage that runs by itself does
not know that a member of a group has been executed before. -/
theorem keepsRetryBudget_iff (hnames : ((flatten entries).map PipelineStage.name).Nodup)
    (initial : Context Job Data) (alreadyDone : Completed Data) (fails : Failures)
    (stops : ℕ → Bool) (mode : Option Mode) :
    let remaining := remainingEntries (stagesForMode entries mode) alreadyDone
    KeepsRetryBudget fails (flatten remaining) (run entries initial alreadyDone fails stops mode) ↔
      ∀ xs s, Reaches fails stops remaining 0 xs (s, true) →
        ¬ ∀ k ≤ maxStageRetries, FailsTransiently (fails s.name) k := by
  intro remaining
  have hnodup := nodup_remainingEntries hnames alreadyDone mode
  have haccounts : Accounts fails stops remaining 0
      (run entries initial alreadyDone fails stops mode) := by
    have hloop := runEntries_accounts hnodup (planFor entries alreadyDone mode) fails stops 0 0
      (startContext initial alreadyDone)
    exact ⟨hloop.named, hloop.reached, hloop.others, hloop.saved, hloop.raised, hloop.through⟩
  constructor
  · intro hkeeps xs s hreaches hall
    have hbudget := hkeeps.budget s.name
    rw [haccounts.reached xs (s, true) hreaches, executions_le_iff] at hbudget
    exact hbudget ⟨rfl, hall⟩
  · intro hwithin
    refine haccounts.keepsRetryBudget hnodup fun xs t hreaches => ?_
    rw [executions_le_iff]
    obtain ⟨s, grouped⟩ := t
    rintro ⟨rfl, hall⟩
    exact hwithin xs s hreaches hall

/-- The second member of a group times out on its first two executions. -/
theorem keepsRetryBudget_iff_timeoutTwice :
    KeepsRetryBudget (fun name k => if k < 2 then timbreTimesOut name k else none)
      (flatten (remainingEntries (stagesForMode aspectEntries none) fun _ => none))
      (run aspectEntries freshContext (fun _ => none)
        (fun name k => if k < 2 then timbreTimesOut name k else none) (fun _ => false) none) := by
  refine (keepsRetryBudget_iff nodup_aspectEntries freshContext (fun _ => none) _ (fun _ => false)
    none).mpr fun xs s _ hall => ?_
  -- the third one succeeds
  obtain ⟨e, he, -⟩ := hall 2 (by decide)
  cases he

/-- **A member of a group can be executed once more than allowed**: it is started with the others,
and then has the three executions of a stage that runs by itself. -/
theorem not_forall_keepsRetryBudget :
    ¬ ∀ (entries : List (Entry Unit ℕ)) (fails : Failures) (stops : ℕ → Bool) (mode : Option Mode),
      ((flatten entries).map PipelineStage.name).Nodup →
        KeepsRetryBudget fails (flatten (remainingEntries (stagesForMode entries mode) fun _ => none))
          (run entries freshContext (fun _ => none) fails stops mode) := by
  intro hall
  have hbudget :=
    (hall aspectEntries timbreTimesOut (fun _ => false) none nodup_aspectEntries).budget "timbre"
  exact absurd hbudget (by decide)

end VocalCoach.Pipeline
