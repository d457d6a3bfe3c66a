/-
# Groups and their flat lists

A group is meant to be a faster way to run its members one by one.  `run_same_iff` says when it
is: `Agrees` compares, on the failures alone, a member that runs by itself, which has
`maxStageRetries + 1` executions, with a member of a group, which has one more, and asks where
the first member fails for good.

A run that is not stopped is what `walk` collects, entry by entry; the flat list has the trace
of its stages by themselves.
-/
import VocalCoach.Resuming

namespace VocalCoach.Pipeline

variable {Job Data : Type} {entries : List (Entry Job Data)} {initial c : Context Job Data}
variable {fails : Failures}

/-! ## Failing for good -/

section Executions

variable {f : ℕ → Option PipelineError} {required : Bool} {left allowed : ℕ} {e e' : PipelineError}

/-- The k-th execution fails transiently. -/
def FailsTransiently (f : ℕ → Option PipelineError) (k : ℕ) : Prop :=
  ∃ e, f k = some e ∧ e.retry = .transient

/-- Of the executions allowed, all fail transiently before one that fails logically or is the
last. -/
def FailsForGood (f : ℕ → Option PipelineError) (allowed : ℕ) (e : PipelineError) : Prop :=
  ∃ n < allowed, f n = some e ∧ (e.retry = .logical ∨ n + 1 = allowed) ∧
    ∀ k < n, FailsTransiently f k

/-- Where the executions of a stage that runs by itself all fail transiently, one more fails the
same way. -/
def OnceMore (f : ℕ → Option PipelineError) : Prop :=
  (∀ k ≤ maxStageRetries, FailsTransiently f k) →
    ∃ e e', f maxStageRetries = some e ∧ f (maxStageRetries + 1) = some e' ∧
      e'.errorCode = e.errorCode ∧ e'.message = e.message

theorem failsForGood_succ :
    FailsForGood f (left + 2) e ↔
      f 0 = some e ∧ e.retry = .logical ∨
        FailsTransiently f 0 ∧ FailsForGood (fun k => f (k + 1)) (left + 1) e := by
  constructor
  · rintro ⟨n, hn, hf, hend, hbefore⟩
    cases n with
    | zero =>
      rcases hend with hlogical | hlast
      · exact Or.inl ⟨hf, hlogical⟩
      · omega
    | succ n =>
      refine Or.inr ⟨hbefore 0 (by omega), n, by omega, hf, ?_, fun k hk => hbefore (k + 1) (by omega)⟩
      rcases hend with hlogical | hlast
      · exact Or.inl hlogical
      · exact Or.inr (by omega)
  · rintro (⟨hf, hlogical⟩ | ⟨hzero, n, hn, hf, hend, hbefore⟩)
    · exact ⟨0, by omega, hf, Or.inl hlogical, fun k hk => by omega⟩
    · refine ⟨n + 1, by omega, hf, ?_, ?_⟩
      · rcases hend with hlogical | hlast
        · exact Or.inl hlogical
        · exact Or.inr (by omega)
      · intro k hk
        cases k with
        | zero => exact hzero
        | succ k => exact hbefore k (by omega)

theorem failsForGood_one : FailsForGood f 1 e ↔ f 0 = some e := by
  constructor
  · rintro ⟨n, hn, hf, -⟩
    obtain rfl : n = 0 := by omega
    exact hf
  · intro hf
    exact ⟨0, by omega, hf, Or.inr rfl, fun k hk => by omega⟩

theorem settle_none {k : ℕ} (h : f k = none) : settle required f left k = (.succeeded, 1) := by
  unfold settle
  rw [h]

theorem settle_logical {k : ℕ} (h : f k = some e) (hretry : e.retry = .logical) :
    settle required f left k = (giveUp required e, 1) := by
  unfold settle
  simp only [h, hretry]

theorem settle_last {k : ℕ} (h : f k = some e) :
    settle required f 0 k = (giveUp required e, 1) := by
  unfold settle
  cases hretry : e.retry <;> simp only [h, hretry]

theorem settle_again {k : ℕ} (h : f k = some e) (hretry : e.retry = .transient) :
    (settle required f (left + 1) k).1 = (settle required f left (k + 1)).1 := by
  rw [settle]
  simp only [h, hretry]

/-- What the executions from one on come to depends on these alone. -/
theorem settle_shift {g : ℕ → Option PipelineError} (hg : ∀ k, g k = f (k + 1)) (k : ℕ) :
    (settle required f left (k + 1)).1 = (settle required g left k).1 := by
  induction left generalizing k with
  | zero =>
    cases hf : f (k + 1) with
    | none => rw [settle_none hf, settle_none ((hg k).trans hf)]
    | some e => rw [settle_last hf, settle_last ((hg k).trans hf)]
  | succ left ih =>
    cases hf : f (k + 1) with
    | none => rw [settle_none hf, settle_none ((hg k).trans hf)]
    | some e =>
      cases hretry : e.retry with
      | logical => rw [settle_logical hf hretry, settle_logical ((hg k).trans hf) hretry]
      | transient => rw [settle_again hf hretry, settle_again ((hg k).trans hf) hretry, ih]

/-- **A stage gives up with the error it fails for good with.** -/
theorem settle_of_fails (h : FailsForGood f (left + 1) e) :
    (settle required f left 0).1 = giveUp required e := by
  induction left generalizing f with
  | zero => rw [settle_last (failsForGood_one.mp h)]
  | succ left ih =>
    rcases failsForGood_succ.mp h with ⟨hf, hlogical⟩ | ⟨⟨e', hf, htransient⟩, hrest⟩
    · rw [settle_logical hf hlogical]
    · rw [settle_again hf htransient, settle_shift fun _ => rfl]
      exact ih hrest

/-- **A stage that does not fail for good succeeds.** -/
theorem settle_of_not_fails (h : ∀ e, ¬FailsForGood f (left + 1) e) :
    (settle required f left 0).1 = .succeeded := by
  induction left generalizing f with
  | zero =>
    cases hf : f 0 with
    | none => rw [settle_none hf]
    | some e => exact absurd (failsForGood_one.mpr hf) (h e)
  | succ left ih =>
    cases hf : f 0 with
    | none => rw [settle_none hf]
    | some e =>
      cases hretry : e.retry with
      | logical => exact absurd (failsForGood_succ.mpr (Or.inl ⟨hf, hretry⟩)) (h e)
      | transient =>
        rw [settle_again hf hretry, settle_shift fun _ => rfl]
        exact ih fun e' he' => h e' (failsForGood_succ.mpr (Or.inr ⟨⟨e, hf, hretry⟩, he'⟩))

/-- One more execution makes a difference only after the last one allowed. -/
theorem settle_more (h : ¬∀ k ≤ left, FailsTransiently f k) :
    (settle required f (left + 1) 0).1 = (settle required f left 0).1 := by
  induction left generalizing f with
  | zero =>
    cases hf : f 0 with
    | none => rw [settle_none hf, settle_none hf]
    | some e =>
      cases hretry : e.retry with
      | logical => rw [settle_logical hf hretry, settle_logical hf hretry]
      | transient =>
        exfalso
        apply h
        intro k hk
        obtain rfl : k = 0 := by omega
        exact ⟨e, hf, hretry⟩
  | succ left ih =>
    cases hf : f 0 with
    | none => rw [settle_none hf, settle_none hf]
    | some e =>
      cases hretry : e.retry with
      | logical => rw [settle_logical hf hretry, settle_logical hf hretry]
      | transient =>
        rw [settle_again hf hretry, settle_again hf hretry, settle_shift fun _ => rfl,
          settle_shift fun _ => rfl]
        refine ih fun hall => h fun k hk => ?_
        cases k with
        | zero => exact ⟨e, hf, hretry⟩
        | succ k => exact hall k (by omega)

/-- After executions that all fail transiently the next one decides. -/
theorem failsForGood_of_all (hall : ∀ k ≤ left, FailsTransiently f k) :
    FailsForGood f (left + 2) e ↔ f (left + 1) = some e := by
  constructor
  · rintro ⟨n, hn, hf, hend, -⟩
    by_cases hlast : n = left + 1
    · rw [← hlast, hf]
    · obtain ⟨e', hf', htransient⟩ := hall n (by omega)
      obtain rfl : e' = e := Option.some.inj (hf'.symm.trans hf)
      rcases hend with hlogical | hend
      · rw [htransient] at hlogical
        cases hlogical
      · omega
  · intro hf
    exact ⟨left + 1, by omega, hf, Or.inr rfl, fun k hk => hall k (by omega)⟩

end Executions

/-! ## Members that raise -/

/-- How often a stage may be executed again where it stands. -/
def allowedRetries (grouped : Bool) : ℕ :=
  if grouped then maxStageRetries + 1 else maxStageRetries

/-- The stage is required and fails for good. -/
def Raises (fails : Failures) (grouped : Bool) (s : PipelineStage Job Data) (e : PipelineError) :
    Prop :=
  s.required = true ∧ FailsForGood (fails s.name) (allowedRetries grouped + 1) e

/-- The first of the stages that fails for good. -/
def FirstRaises (fails : Failures) (grouped : Bool) :
    List (PipelineStage Job Data) → PipelineError → Prop
  | [], _ => False
  | s :: members, e =>
      Raises fails grouped s e ∨ (∀ e', ¬Raises fails grouped s e') ∧ FirstRaises fails grouped members e

/-- **When the entries end as their flat list does.**  Up to the first stage that fails for good
by itself, each member of a group fails once more where its executions do not suffice; if that
stage is in a group, it is the first member, and the group fails as it does. -/
def Agrees (fails : Failures) : List (Entry Job Data) → Prop
  | [] => True
  | .stage s :: entries => (∃ e, Raises fails false s e) ∨ Agrees fails entries
  | .group members :: entries =>
      (∀ s ∈ members, (∀ e, ¬Raises fails false s e) ∧ OnceMore (fails s.name)) ∧
          Agrees fails entries ∨
        ∃ s rest e, members = s :: rest ∧ Raises fails false s e ∧ FirstRaises fails true members e

theorem verdict_eq_settle (t : Slot Job Data) :
    t.verdict fails =
      (settle t.1.required (fails t.1.name) (allowedRetries t.2) 0).1 := by
  unfold Slot.verdict allowedRetries
  by_cases hgrouped : t.2 = true
  · rw [if_pos hgrouped, if_pos hgrouped]
    unfold inGroup
    cases hf : fails t.1.name 0 with
    | none => rw [settle_none hf]
    | some e =>
      cases hretry : e.retry with
      | logical =>
        rw [settle_logical hf hretry]
        simp only [hretry]
      | transient =>
        rw [settle_again hf hretry]
        simp only [hretry]
  · rw [if_neg hgrouped, if_neg hgrouped]
    rfl

theorem verdict_eq_raised {t : Slot Job Data} {e : PipelineError} :
    t.verdict fails = .raised e ↔ Raises fails t.2 t.1 e := by
  rw [verdict_eq_settle, Raises]
  constructor
  · intro h
    by_cases hfails : ∃ e', FailsForGood (fails t.1.name) (allowedRetries t.2 + 1) e'
    · obtain ⟨e', he'⟩ := hfails
      rw [settle_of_fails he', giveUp] at h
      split at h
      next hrequired =>
        obtain rfl : e' = e := Verdict.raised.inj h
        exact ⟨hrequired, he'⟩
      next => cases h
    · rw [settle_of_not_fails (not_exists.mp hfails)] at h
      cases h
  · rintro ⟨hrequired, hfails⟩
    rw [settle_of_fails hfails, giveUp, if_pos hrequired]

/-- A required stage is never skipped. -/
theorem required_of_skipped {t : Slot Job Data} {e : PipelineError}
    (h : t.verdict fails = .skipped e) : t.1.required = false := by
  rw [verdict_eq_settle] at h
  by_cases hfails : ∃ e', FailsForGood (fails t.1.name) (allowedRetries t.2 + 1) e'
  · obtain ⟨e', he'⟩ := hfails
    rw [settle_of_fails he', giveUp] at h
    split at h
    next => cases h
    next hoptional => rwa [Bool.not_eq_true] at hoptional
  · rw [settle_of_not_fails (not_exists.mp hfails)] at h
    cases h

theorem result_eq_error {v : Verdict} {s : PipelineStage Job Data} {e : PipelineError} :
    v.result s c = .error e ↔ v = .raised e := by
  cases v with
  | succeeded | skipped => exact ⟨fun h => (by cases h), fun h => (by cases h)⟩
  | raised e' =>
    constructor
    · intro h
      rw [Except.error.inj h]
    · intro h
      rw [Verdict.raised.inj h]
      rfl

theorem result_eq_error_iff {t : Slot Job Data} {e : PipelineError} :
    (t.verdict fails).result t.1 c = .error e ↔ Raises fails t.2 t.1 e :=
  result_eq_error.trans verdict_eq_raised

theorem not_raises_of_ok {t : Slot Job Data} {r : StageResult Data}
    (h : (t.verdict fails).result t.1 c = .ok r) (e : PipelineError) : ¬Raises fails t.2 t.1 e := by
  intro hraises
  rw [result_eq_error_iff.mpr hraises] at h
  cases h

/-- A trace ends with the error of the first stage that fails for good. -/
theorem trace_error_iff {members : List (PipelineStage Job Data)} {grouped : Bool}
    {e : PipelineError} :
    (trace fails (members.map fun s => (s, grouped)) c).2 = some e ↔
      FirstRaises fails grouped members e := by
  induction members generalizing c with
  | nil => exact ⟨fun h => (by cases h), False.elim⟩
  | cons s members ih =>
    rw [List.map_cons, FirstRaises]
    cases hr : (Slot.verdict fails ((s, grouped) : Slot Job Data)).result s c with
    | error e' =>
      have hs : Raises fails grouped s e' := result_eq_error_iff.mp hr
      rw [trace_cons_error hr]
      constructor
      · intro h
        obtain rfl : e' = e := Option.some.inj h
        exact Or.inl hs
      · rintro (h | ⟨hnone, -⟩)
        · have hsame := (result_eq_error_iff (c := c) (t := (s, grouped))).mpr h
          rw [Except.error.inj (hr.symm.trans hsame)]
        · exact absurd hs (hnone e')
    | ok r =>
      have hnone : ∀ e', ¬Raises fails grouped s e' := not_raises_of_ok hr
      rw [trace_cons_ok hr]
      dsimp only
      rw [ih]
      constructor
      · intro h
        exact Or.inr ⟨hnone, h⟩
      · rintro (h | ⟨-, h⟩)
        · exact absurd h (hnone e)
        · exact h

/-- A trace has all results where no stage fails for good. -/
theorem trace_none_iff {members : List (PipelineStage Job Data)} {grouped : Bool} :
    (trace fails (members.map fun s => (s, grouped)) c).2 = none ↔
      ∀ s ∈ members, ∀ e, ¬Raises fails grouped s e := by
  induction members generalizing c with
  | nil => exact ⟨fun _ s hs => (by cases hs), fun _ => rfl⟩
  | cons s members ih =>
    rw [List.map_cons, List.forall_mem_cons]
    cases hr : (Slot.verdict fails ((s, grouped) : Slot Job Data)).result s c with
    | error e' =>
      rw [trace_cons_error hr]
      constructor
      · intro h
        cases h
      · rintro ⟨hnone, -⟩
        exact absurd (result_eq_error_iff.mp hr) (hnone e')
    | ok r =>
      rw [trace_cons_ok hr]
      dsimp only
      rw [ih]
      exact ⟨fun h => ⟨not_raises_of_ok hr, h⟩, fun h => h.2⟩

theorem length_trace {ts : List (Slot Job Data)} (h : (trace fails ts c).2 = none) :
    (trace fails ts c).1.length = ts.length := by
  have hlength := congrArg List.length (trace_stages h)
  rw [List.length_map, List.length_map] at hlength
  exact hlength

theorem length_trace_lt {ts : List (Slot Job Data)} {e : PipelineError}
    (h : (trace fails ts c).2 = some e) : (trace fails ts c).1.length < ts.length := by
  induction ts generalizing c with
  | nil => cases h
  | cons t ts ih =>
    cases hr : (t.verdict fails).result t.1 c with
    | error e' =>
      rw [trace_cons_error hr, List.length_cons]
      exact Nat.succ_pos _
    | ok r =>
      rw [trace_cons_ok hr] at h ⊢
      exact Nat.succ_lt_succ (ih h)

/-! ## The members of a group one by one -/

theorem skippedResult_eq_iff (s : PipelineStage Job Data) {e e' : PipelineError} :
    (skippedResult s e' : StageResult Data) = skippedResult s e ↔
      e'.errorCode = e.errorCode ∧ e'.message = e.message := by
  simp [skippedResult]

/-- A stage that does not fail for good by itself ends in a group as it does by itself just in
case it fails once more. -/
theorem result_grouped_iff {s : PipelineStage Job Data} (hnone : ∀ e, ¬Raises fails false s e) :
    (Slot.verdict fails ((s, true) : Slot Job Data)).result s c =
        (Slot.verdict fails ((s, false) : Slot Job Data)).result s c ↔
      OnceMore (fails s.name) := by
  have hgrouped : Slot.verdict fails ((s, true) : Slot Job Data) =
      (settle s.required (fails s.name) (maxStageRetries + 1) 0).1 := verdict_eq_settle _
  have halone : Slot.verdict fails ((s, false) : Slot Job Data) =
      (settle s.required (fails s.name) maxStageRetries 0).1 := verdict_eq_settle _
  rw [hgrouped, halone]
  by_cases hall : ∀ k ≤ maxStageRetries, FailsTransiently (fails s.name) k
  · -- by itself the stage is skipped
    obtain ⟨e, he, -⟩ := hall maxStageRetries (Nat.le_refl _)
    have hfails : FailsForGood (fails s.name) (maxStageRetries + 1) e :=
      ⟨maxStageRetries, Nat.lt_succ_self _, he, Or.inr rfl, fun k hk => hall k (Nat.le_of_lt hk)⟩
    have hoptional : s.required = false := by
      by_contra hrequired
      exact hnone e ⟨eq_true_of_ne_false hrequired, hfails⟩
    rw [settle_of_fails hfails, hoptional]
    cases hmore : fails s.name (maxStageRetries + 1) with
    | none =>
      have hnever (e' : PipelineError) : ¬FailsForGood (fails s.name) (maxStageRetries + 1 + 1) e' := by
        rw [failsForGood_of_all hall, hmore]
        intro h
        cases h
      rw [settle_of_not_fails hnever]
      constructor
      · intro h
        cases h
      · intro h
        obtain ⟨_, e', -, he', -⟩ := h hall
        rw [hmore] at he'
        cases he'
    | some e' =>
      rw [settle_of_fails ((failsForGood_of_all hall).mpr hmore)]
      have hskipped : (giveUp false e').result s c = (giveUp false e).result s c ↔
          e'.errorCode = e.errorCode ∧ e'.message = e.message := by
        rw [← skippedResult_eq_iff s]
        exact ⟨Except.ok.inj, fun h => congrArg Except.ok h⟩
      rw [hskipped]
      constructor
      · intro h _
        exact ⟨e, e', he, hmore, h⟩
      · intro h
        obtain ⟨e₀, e₁, he₀, he₁, hsame⟩ := h hall
        obtain rfl : e = e₀ := Option.some.inj (he.symm.trans he₀)
        obtain rfl : e' = e₁ := Option.some.inj (hmore.symm.trans he₁)
        exact hsame
  · rw [settle_more hall]
    exact ⟨fun _ h => absurd h hall, fun _ => rfl⟩

/-- **A group whose members do not fail for good by themselves runs as they do just in case
each fails once more.** -/
theorem trace_grouped_iff {members : List (PipelineStage Job Data)}
    (hnone : ∀ s ∈ members, ∀ e, ¬Raises fails false s e) :
    trace fails (members.map fun s => (s, true)) c = trace fails (members.map fun s => (s, false)) c ↔
      ∀ s ∈ members, OnceMore (fails s.name) := by
  induction members generalizing c with
  | nil => exact ⟨fun _ s hs => (by cases hs), fun _ => rfl⟩
  | cons s members ih =>
    rw [List.forall_mem_cons] at hnone
    have hsame := result_grouped_iff (c := c) hnone.1
    rw [List.forall_mem_cons, ← hsame, List.map_cons, List.map_cons]
    cases hr : (Slot.verdict fails ((s, false) : Slot Job Data)).result s c with
    | error e => exact absurd (result_eq_error_iff.mp hr) (hnone.1 e)
    | ok r =>
      rw [trace_cons_ok hr, ← ih (c := c.withResult r) hnone.2]
      cases hr' : (Slot.verdict fails ((s, true) : Slot Job Data)).result s c with
      | error e =>
        rw [trace_cons_error hr']
        exact ⟨fun h => (by cases h), fun h => (by cases h.1)⟩
      | ok r' =>
        rw [trace_cons_ok hr']
        constructor
        · intro h
          simp only [Prod.mk.injEq, List.cons.injEq] at h
          obtain ⟨⟨rfl, hresults⟩, herror⟩ := h
          exact ⟨rfl, Prod.ext hresults herror⟩
        · rintro ⟨h, hrest⟩
          obtain rfl : r' = r := Except.ok.inj h
          rw [hrest]

/-! ## Entry by entry -/

/-- The results of a run that is not stopped, and the error that ends it: of an entry that fails
there are no results. -/
def walk (fails : Failures) : List (Entry Job Data) → Context Job Data →
    List (StageResult Data) × Option PipelineError
  | [], _ => ([], none)
  | entry :: entries, c =>
      match (trace fails entry.slots c).2 with
      | some e => ([], some e)
      | none =>
          let rest := walk fails entries (c.withResults (trace fails entry.slots c).1)
          ((trace fails entry.slots c).1 ++ rest.1, rest.2)

theorem walk_cons_error {entry : Entry Job Data} {e : PipelineError}
    (h : (trace fails entry.slots c).2 = some e) : walk fails (entry :: entries) c = ([], some e) := by
  rw [walk, h]

theorem walk_cons_none {entry : Entry Job Data} (h : (trace fails entry.slots c).2 = none) :
    walk fails (entry :: entries) c =
      ((trace fails entry.slots c).1 ++
          (walk fails entries (c.withResults (trace fails entry.slots c).1)).1,
        (walk fails entries (c.withResults (trace fails entry.slots c).1)).2) := by
  rw [walk, h]

/-- How a run that is not stopped ends. -/
def ending : Option PipelineError → Outcome
  | none => .completed
  | some e => .raised e

/-- **A run that is not stopped is a walk.** -/
theorem runEntries_walk (hnames : ((flatten entries).map PipelineStage.name).Nodup)
    (hentries : ∀ entry ∈ entries, entry.Independent) (plan : Plan Job Data) (turn position : ℕ)
    (c : Context Job Data) :
    let report := runEntries plan fails (fun _ => false) entries turn position c
    report.saved = plan.saves position (walk fails entries c).1 ∧
      report.outcome = ending (walk fails entries c).2 ∧
      report.context = c.withResults (walk fails entries c).1 := by
  induction entries generalizing turn position c with
  | nil => exact ⟨rfl, rfl, rfl⟩
  | cons entry entries ih =>
    have hflat : flatten (entry :: entries) = entry.members ++ flatten entries := List.flatMap_cons
    rw [hflat, List.map_append, List.nodup_append] at hnames
    have hentry : (runEntry fails c entry).1 = settled (trace fails entry.slots c) :=
      runEntry_trace hnames.1 (hentries entry List.mem_cons_self)
    unfold runEntries
    rw [if_neg (by simp)]
    cases herror : (trace fails entry.slots c).2 with
    | some e =>
      have hrun : runEntry fails c entry = (.error e, (runEntry fails c entry).2) := by
        rw [← Prod.eta (runEntry fails c entry), hentry, settled, herror]
      rw [hrun, walk_cons_error herror]
      exact ⟨rfl, rfl, rfl⟩
    | none =>
      have hrun : runEntry fails c entry =
          (.ok (trace fails entry.slots c).1, (runEntry fails c entry).2) := by
        rw [← Prod.eta (runEntry fails c entry), hentry, settled, herror]
      obtain ⟨hsaved, houtcome, hcontext⟩ := ih hnames.2.1
        (fun entry' h => hentries entry' (List.mem_cons_of_mem _ h)) (turn + 1)
        (position + (trace fails entry.slots c).1.length) (c.withResults (trace fails entry.slots c).1)
      rw [hrun, walk_cons_none herror, saves_append, withResults_append]
      exact ⟨congrArg _ hsaved, houtcome, hcontext⟩

/-- Stages that run by themselves save what they return as they return it. -/
theorem walk_stages (stages : List (PipelineStage Job Data)) (c : Context Job Data) :
    walk fails (stages.map Entry.stage) c = trace fails (stages.map fun s => (s, false)) c := by
  induction stages generalizing c with
  | nil => rfl
  | cons s stages ih =>
    have hslots : (Entry.stage s).slots = [(s, false)] := rfl
    rw [List.map_cons, List.map_cons]
    cases hr : (Slot.verdict fails ((s, false) : Slot Job Data)).result s c with
    | error e =>
      rw [trace_cons_error hr, walk_cons_error (by rw [hslots, trace_cons_error hr])]
    | ok r =>
      have hone : trace fails (Entry.stage s).slots c = ([r], none) := by
        rw [hslots, trace_cons_ok hr]
        rfl
      rw [trace_cons_ok hr, walk_cons_none (by rw [hone]), hone, ← ih]
      rfl

section Group

variable {members : List (PipelineStage Job Data)} {later : List (Slot Job Data)}

/-- A group in which no member fails for good by itself. -/
theorem walk_group_iff_onceMore (hnone : ∀ s ∈ members, ∀ e, ¬Raises fails false s e)
    (hlater : ∀ c, walk fails entries c = trace fails later c ↔ Agrees fails entries)
    (c : Context Job Data) :
    walk fails (.group members :: entries) c =
        trace fails (members.map (fun s => (s, false)) ++ later) c ↔
      (∀ s ∈ members, OnceMore (fails s.name)) ∧ Agrees fails entries := by
  have hslots : (Entry.group members).slots = members.map fun s => (s, true) := rfl
  have halone : (trace fails (members.map fun s => (s, false)) c).2 = none := trace_none_iff.mpr hnone
  have hlength := length_trace halone
  rw [← trace_grouped_iff (c := c) hnone, trace_append halone]
  cases hgroup : (trace fails (members.map fun s => (s, true)) c).2 with
  | some e =>
    rw [walk_cons_error (by rw [hslots, hgroup])]
    constructor
    · intro h
      -- there is a member, and by itself it is saved
      have hsome := length_trace_lt hgroup
      rw [Prod.mk.injEq] at h
      have hempty := congrArg List.length h.1
      rw [List.length_append, List.length_nil, hlength, List.length_map] at hempty
      rw [List.length_map] at hsome
      omega
    · rintro ⟨hsame, -⟩
      rw [hsame, halone] at hgroup
      cases hgroup
  | none =>
    rw [walk_cons_none (by rw [hslots, hgroup]), hslots]
    have hlengths : (trace fails (members.map fun s => (s, true)) c).1.length =
        (trace fails (members.map fun s => (s, false)) c).1.length := by
      rw [hlength, length_trace hgroup, List.length_map, List.length_map]
    constructor
    · intro h
      rw [Prod.mk.injEq] at h
      obtain ⟨hmembers, hrest⟩ := List.append_inj h.1 hlengths
      have hsame := Prod.ext hmembers (hgroup.trans halone.symm)
      have herror := h.2
      rw [hsame] at hrest herror
      exact ⟨hsame, (hlater _).mp (Prod.ext hrest herror)⟩
    · rintro ⟨hsame, hagrees⟩
      rw [hsame, (hlater _).mpr hagrees]

/-- A group with a member that fails for good by itself. -/
theorem walk_group_iff_first {e : PipelineError}
    (halone : (trace fails (members.map fun s => (s, false)) c).2 = some e) :
    walk fails (.group members :: entries) c =
        trace fails (members.map (fun s => (s, false)) ++ later) c ↔
      ∃ s rest e, members = s :: rest ∧ Raises fails false s e ∧ FirstRaises fails true members e := by
  have hslots : (Entry.group members).slots = members.map fun s => (s, true) := rfl
  rw [trace_append_error halone]
  cases hgroup : (trace fails (members.map fun s => (s, true)) c).2 with
  | some e' =>
    rw [walk_cons_error (by rw [hslots, hgroup])]
    constructor
    · intro h
      rw [← h] at halone
      obtain rfl : e' = e := Option.some.inj halone
      cases members with
      | nil => cases hgroup
      | cons s rest =>
        -- nothing is saved, so it is the first member that fails
        cases hr : (Slot.verdict fails ((s, false) : Slot Job Data)).result s c with
        | error e =>
          rw [List.map_cons, trace_cons_error hr] at h
          rw [Prod.mk.injEq] at h
          obtain rfl : e' = e := Option.some.inj h.2
          exact ⟨s, rest, e', rfl, result_eq_error_iff.mp hr, trace_error_iff.mp hgroup⟩
        | ok r =>
          rw [List.map_cons, trace_cons_ok hr, Prod.mk.injEq] at h
          cases h.1
    · rintro ⟨s, rest, e₀, rfl, hraises, hfirst⟩
      have hr : (Slot.verdict fails ((s, false) : Slot Job Data)).result s c = .error e₀ :=
        result_eq_error_iff.mpr hraises
      have he := hgroup.symm.trans (trace_error_iff.mpr hfirst)
      rw [List.map_cons, trace_cons_error hr, he]
  | none =>
    rw [walk_cons_none (by rw [hslots, hgroup]), hslots]
    constructor
    · intro h
      have hless := length_trace_lt halone
      rw [← h, List.length_append, length_trace hgroup, List.length_map, List.length_map] at hless
      omega
    · rintro ⟨s, rest, e₀, rfl, -, hfirst⟩
      rw [trace_error_iff.mpr hfirst] at hgroup
      cases hgroup

end Group

/-- **The entries end as their flat list does just in case `Agrees`.** -/
theorem walk_eq_iff (entries : List (Entry Job Data)) (c : Context Job Data) :
    walk fails entries c = trace fails ((flatten entries).map fun s => (s, false)) c ↔
      Agrees fails entries := by
  induction entries generalizing c with
  | nil => exact ⟨fun _ => trivial, fun _ => rfl⟩
  | cons entry entries ih =>
    have hflat : flatten (entry :: entries) = entry.members ++ flatten entries := List.flatMap_cons
    rw [hflat, List.map_append]
    cases entry with
    | stage s =>
      rw [Agrees]
      have hslots : (Entry.stage s).slots = [s].map fun s => (s, false) := rfl
      have hmembers : (Entry.stage s).members = [s] := rfl
      rw [hmembers]
      cases herror : (trace fails ([s].map fun s => (s, false)) c).2 with
      | some e =>
        -- both end here
        rw [trace_append_error herror, walk_cons_error (by rw [hslots, herror])]
        have hraises : Raises fails false s e := by
          rcases trace_error_iff.mp herror with h | ⟨-, h⟩
          · exact h
          · exact h.elim
        have hnil : (trace fails ([s].map fun s => (s, false)) c).1 = [] :=
          List.eq_nil_of_length_eq_zero (Nat.lt_one_iff.mp (length_trace_lt herror))
        exact ⟨fun _ => Or.inl ⟨e, hraises⟩, fun _ => Prod.ext hnil.symm herror.symm⟩
      | none =>
        have hnone : ¬∃ e, Raises fails false s e := by
          rintro ⟨e, h⟩
          exact trace_none_iff.mp herror s List.mem_cons_self e h
        rw [trace_append herror, walk_cons_none (by rw [hslots, herror]), hslots,
          or_iff_right hnone, ← ih (c.withResults (trace fails ([s].map fun s => (s, false)) c).1)]
        constructor
        · intro h
          rw [Prod.mk.injEq, List.append_cancel_left_eq] at h
          exact Prod.ext h.1 h.2
        · intro h
          rw [h]
    | group members =>
      rw [Agrees]
      have hmembers : (Entry.group members).members = members := rfl
      rw [hmembers]
      cases halone : (trace fails (members.map fun s => (s, false)) c).2 with
      | none =>
        -- no member raises by itself: the group must not raise either
        have hnone := trace_none_iff.mp halone
        rw [walk_group_iff_onceMore hnone ih]
        constructor
        · rintro ⟨honce, hagrees⟩
          exact Or.inl ⟨fun s hs => ⟨hnone s hs, honce s hs⟩, hagrees⟩
        · rintro (⟨hall, hagrees⟩ | ⟨s, rest, e, rfl, hraises, -⟩)
          · exact ⟨fun s hs => (hall s hs).2, hagrees⟩
          · exact absurd hraises (hnone s List.mem_cons_self e)
      | some e =>
        rw [walk_group_iff_first halone, or_iff_right]
        rintro ⟨hall, -⟩
        have hnone := trace_none_iff (c := c).mpr fun s hs => (hall s hs).1
        rw [hnone] at halone
        cases halone

/-! ## Runs -/

/-- Two runs save the same, end the same and complete the same. -/
def Report.SameAs (a b : Report Job Data) : Prop :=
  a.saved = b.saved ∧ a.outcome = b.outcome ∧ a.context.completed = b.context.completed

theorem flatten_map_stage (stages : List (PipelineStage Job Data)) :
    flatten (stages.map Entry.stage) = stages := by
  induction stages with
  | nil => rfl
  | cons s stages ih =>
    rw [List.map_cons, flatten, List.flatMap_cons, ← flatten, ih]
    rfl

/-- Stages that run by themselves are kept or dropped as they are in a group. -/
theorem restrict_map_stage (keep : PipelineStage Job Data → Bool)
    (stages : List (PipelineStage Job Data)) :
    (stages.map Entry.stage).filterMap (Entry.restrict keep) = (stages.filter keep).map Entry.stage := by
  induction stages with
  | nil => rfl
  | cons s stages ih =>
    by_cases hkeep : keep s = true
    · rw [List.filter_cons_of_pos hkeep, List.map_cons, List.map_cons, ← ih]
      exact List.filterMap_cons_some (if_pos hkeep)
    · rw [List.filter_cons_of_neg hkeep, List.map_cons, ← ih]
      exact List.filterMap_cons_none (if_neg hkeep)

theorem stagesForMode_flatten (entries : List (Entry Job Data)) (mode : Option Mode) :
    stagesForMode ((flatten entries).map Entry.stage) mode =
      (flatten (stagesForMode entries mode)).map Entry.stage := by
  cases mode with
  | none => rfl
  | some mode => rw [stagesForMode, restrict_map_stage, stagesForMode, flatten_restrict]

theorem remainingEntries_flatten (entries : List (Entry Job Data)) (alreadyDone : Completed Data) :
    remainingEntries ((flatten entries).map Entry.stage) alreadyDone =
      (flatten (remainingEntries entries alreadyDone)).map Entry.stage := by
  rw [remainingEntries, restrict_map_stage, remainingEntries, flatten_restrict]

theorem ending_injective : Function.Injective ending := by
  rintro (_ | e) (_ | e') h
  · rfl
  · cases h
  · cases h
  · rw [Outcome.raised.inj h]

theorem saves_injective (plan : Plan Job Data) (position : ℕ) :
    Function.Injective (plan.saves position) := by
  intro rs rs' h
  rw [← saves_map_result plan position rs, h, saves_map_result]

/-- **A run that nothing stops is a walk over the entries that are left.** -/
theorem run_walk (hnames : ((flatten entries).map PipelineStage.name).Nodup)
    (hentries : ∀ entry ∈ entries, entry.Independent) (initial : Context Job Data)
    (alreadyDone : Completed Data) (fails : Failures) (mode : Option Mode) :
    let report := run entries initial alreadyDone fails (fun _ => false) mode
    let walked := walk fails (remainingEntries (stagesForMode entries mode) alreadyDone)
      (startContext initial alreadyDone)
    report.saved = (planFor entries alreadyDone mode).saves 0 walked.1 ∧
      report.outcome = ending walked.2 ∧
      report.context = (startContext initial alreadyDone).withResults walked.1 :=
  runEntries_walk (nodup_remainingEntries hnames alreadyDone mode)
    (independent_restrict (independent_stagesForMode hentries)) (planFor entries alreadyDone mode) 0 0
    (startContext initial alreadyDone)

/-- **A list of entries runs as its flat list does just in case the failures agree.**  The runs
save the same, end the same and complete the same. -/
theorem run_same_iff (hnames : ((flatten entries).map PipelineStage.name).Nodup)
    (hentries : ∀ entry ∈ entries, entry.Independent) (initial : Context Job Data)
    (alreadyDone : Completed Data) (fails : Failures) (mode : Option Mode) :
    (run entries initial alreadyDone fails (fun _ => false) mode).SameAs
        (run ((flatten entries).map Entry.stage) initial alreadyDone fails (fun _ => false) mode) ↔
      Agrees fails (remainingEntries (stagesForMode entries mode) alreadyDone) := by
  have hplan : planFor ((flatten entries).map Entry.stage) alreadyDone mode =
      planFor entries alreadyDone mode := by
    simp only [planFor, stagesForMode_flatten, remainingEntries_flatten, flatten_map_stage]
  have hflatEntries : ∀ entry ∈ (flatten entries).map Entry.stage, entry.Independent := by
    intro entry hentry
    obtain ⟨s, -, rfl⟩ := List.mem_map.mp hentry
    trivial
  have hflatNames : ((flatten ((flatten entries).map Entry.stage)).map PipelineStage.name).Nodup := by
    rw [flatten_map_stage]
    exact hnames
  obtain ⟨hsaved, houtcome, hcontext⟩ := run_walk hnames hentries initial alreadyDone fails mode
  obtain ⟨hsaved', houtcome', hcontext'⟩ :=
    run_walk hflatNames hflatEntries initial alreadyDone fails mode
  rw [stagesForMode_flatten, remainingEntries_flatten, walk_stages] at hsaved' houtcome' hcontext'
  rw [← walk_eq_iff _ (startContext initial alreadyDone), Report.SameAs, hsaved, houtcome, hcontext,
    hsaved', houtcome', hcontext', hplan]
  constructor
  · rintro ⟨hsame, hending, -⟩
    exact Prod.ext (saves_injective _ _ hsame) (ending_injective hending)
  · intro h
    rw [h]
    exact ⟨rfl, rfl, rfl⟩

/-- Where only first executions fail, and those transiently, a group makes no difference. -/
theorem agrees_of_recovers (hlater : ∀ name k, 0 < k → fails name k = none)
    (hfirst : ∀ name e, fails name 0 = some e → e.retry = .transient)
    (entries : List (Entry Job Data)) : Agrees fails entries := by
  have hnone (s : PipelineStage Job Data) (e : PipelineError) : ¬Raises fails false s e := by
    rintro ⟨-, n, -, hf, hend, -⟩
    cases n with
    | zero =>
      rcases hend with hlogical | hlast
      · rw [hfirst _ e hf] at hlogical
        cases hlogical
      · exact absurd hlast (by decide)
    | succ n =>
      rw [hlater _ _ (Nat.succ_pos n)] at hf
      cases hf
  induction entries with
  | nil => trivial
  | cons entry entries ih =>
    cases entry with
    | stage s => exact Or.inr ih
    | group members =>
      refine Or.inl ⟨fun s _ => ⟨hnone s, fun hall => ?_⟩, ih⟩
      obtain ⟨e, hf, -⟩ := hall 1 (by decide)
      rw [hlater _ _ Nat.one_pos] at hf
      cases hf

/-- The second member of the group times out once. -/
def timbreRecovers : Failures := fun name k =>
  if name = "timbre" ∧ k = 0 then
    some { retry := .transient, errorCode := "TIMEOUT", message := "stage 'timbre' exceeded its 30s timeout" }
  else none

theorem run_same_iff_timbreRecovers :
    (run aspectEntries freshContext (fun _ => none) timbreRecovers (fun _ => false) none).SameAs
      (run ((flatten aspectEntries).map Entry.stage) freshContext (fun _ => none) timbreRecovers
        (fun _ => false) none) := by
  refine (run_same_iff nodup_aspectEntries independent_aspectEntries freshContext (fun _ => none)
    timbreRecovers none).mpr (agrees_of_recovers (fun name k hk => ?_) (fun name e he => ?_) _)
  · exact if_neg fun h => absurd h.2 (Nat.ne_of_gt hk)
  · unfold timbreRecovers at he
    split_ifs at he
    cases he
    rfl

/-- The second member of the group times out every time. -/
def timbreTimesOut : Failures := fun name _ =>
  if name = "timbre" then
    some { retry := .transient, errorCode := "TIMEOUT", message := "stage 'timbre' exceeded its 30s timeout" }
  else none

/-- In the group, what the first member has found is lost with it. -/
theorem not_forall_run_same :
    ¬∀ (entries : List (Entry Unit ℕ)) (fails : Failures),
      ((flatten entries).map PipelineStage.name).Nodup → (∀ entry ∈ entries, entry.Independent) →
        (run entries freshContext (fun _ => none) fails (fun _ => false) none).SameAs
          (run ((flatten entries).map Entry.stage) freshContext (fun _ => none) fails
            (fun _ => false) none) := by
  intro h
  obtain ⟨hsaved, -⟩ := h aspectEntries timbreTimesOut nodup_aspectEntries independent_aspectEntries
  have hlengths := congrArg List.length hsaved
  exact absurd hlengths (by decide)

end VocalCoach.Pipeline
