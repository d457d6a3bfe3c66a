/-
# A run as a list of results

What a run saves, it saves in the flat order of its stages.  `trace` takes the stages one
after the other, each with its own verdict: the members of a group have the verdicts they
have in the group.  `runEntries_trace` says that the results of a run are those of the trace,
up to where the run ends; the members of a group need not read each other's results for it
(`Independent`).
-/
import VocalCoach.Runner
import Mathlib.Data.List.Basic
import Mathlib.Tactic.Common

namespace VocalCoach.Pipeline

variable {Job Data : Type} {fails fails' : Failures} {plan : Plan Job Data} {stops : ℕ → Bool}
variable {entries : List (Entry Job Data)} {c : Context Job Data}

/-! ## The flat list -/

/-- A stage of the flat list, and whether it is a member of a group. -/
abbrev Slot (Job Data : Type) := PipelineStage Job Data × Bool

/-- The stages of an entry, in order. -/
def Entry.slots : Entry Job Data → List (Slot Job Data)
  | .stage s => [(s, false)]
  | .group stages => stages.map fun s => (s, true)

/-- The stages of a list of entries, in order. -/
def slots (entries : List (Entry Job Data)) : List (Slot Job Data) := entries.flatMap Entry.slots

/-- How a stage ends where it stands. -/
def Slot.verdict (fails : Failures) (t : Slot Job Data) : Verdict :=
  if t.2 then (inGroup fails t.1).1 else (alone fails t.1).1

/-- The results of the stages one after the other, and the error that ends them. -/
def trace (fails : Failures) : List (Slot Job Data) → Context Job Data →
    List (StageResult Data) × Option PipelineError
  | [], _ => ([], none)
  | t :: ts, c =>
      match (t.verdict fails).result t.1 c with
      | .error e => ([], some e)
      | .ok r =>
          let rest := trace fails ts (c.withResult r)
          (r :: rest.1, rest.2)

/-- The context once results have been recorded. -/
def Context.withResults (c : Context Job Data) (results : List (StageResult Data)) :
    Context Job Data :=
  results.foldl Context.withResult c

theorem Entry.slots_map_fst (entry : Entry Job Data) : entry.slots.map Prod.fst = entry.members := by
  cases entry with
  | stage s => rfl
  | group stages => simp [Entry.slots, Entry.members, Function.comp_def]

theorem slots_map_fst (entries : List (Entry Job Data)) :
    (slots entries).map Prod.fst = flatten entries := by
  simp only [slots, flatten, List.map_flatMap, Entry.slots_map_fst]

/-! ## Contexts -/

@[simp] theorem withResults_nil : c.withResults [] = c := rfl

@[simp] theorem withResults_cons (r : StageResult Data) (rs : List (StageResult Data)) :
    c.withResults (r :: rs) = (c.withResult r).withResults rs := rfl

theorem withResults_append (rs rs' : List (StageResult Data)) :
    c.withResults (rs ++ rs') = (c.withResults rs).withResults rs' :=
  List.foldl_append ..

/-! ## Traces -/

theorem trace_cons_ok {t : Slot Job Data} {ts : List (Slot Job Data)} {r : StageResult Data}
    (h : (t.verdict fails).result t.1 c = .ok r) :
    trace fails (t :: ts) c =
      (r :: (trace fails ts (c.withResult r)).1, (trace fails ts (c.withResult r)).2) := by
  rw [trace, h]

theorem trace_cons_error {t : Slot Job Data} {ts : List (Slot Job Data)} {e : PipelineError}
    (h : (t.verdict fails).result t.1 c = .error e) : trace fails (t :: ts) c = ([], some e) := by
  rw [trace, h]

/-- A trace is taken piece by piece. -/
theorem trace_append {xs ys : List (Slot Job Data)} (h : (trace fails xs c).2 = none) :
    trace fails (xs ++ ys) c =
      ((trace fails xs c).1 ++ (trace fails ys (c.withResults (trace fails xs c).1)).1,
        (trace fails ys (c.withResults (trace fails xs c).1)).2) := by
  induction xs generalizing c with
  | nil => rfl
  | cons t xs ih =>
    cases hr : (t.verdict fails).result t.1 c with
    | error e =>
      rw [trace_cons_error hr] at h
      cases h
    | ok r =>
      rw [trace_cons_ok hr] at h ⊢
      rw [List.cons_append, trace_cons_ok hr, ih h]
      rfl

/-- An error ends a trace. -/
theorem trace_append_error {xs ys : List (Slot Job Data)} {e : PipelineError}
    (h : (trace fails xs c).2 = some e) : trace fails (xs ++ ys) c = trace fails xs c := by
  induction xs generalizing c with
  | nil => cases h
  | cons t xs ih =>
    cases hr : (t.verdict fails).result t.1 c with
    | error e' => rw [List.cons_append, trace_cons_error hr, trace_cons_error hr]
    | ok r =>
      rw [trace_cons_ok hr] at h
      rw [List.cons_append, trace_cons_ok hr, trace_cons_ok hr, ih h]

/-- What a stage returns bears its name. -/
theorem stage_of_result {v : Verdict} {s : PipelineStage Job Data} {r : StageResult Data}
    (h : v.result s c = .ok r) : r.stage = s.name := by
  cases v <;> cases h <;> rfl

/-- **The results of a trace are those of its first stages, in order.** -/
theorem trace_stages_isPrefix (ts : List (Slot Job Data)) (c : Context Job Data) :
    (trace fails ts c).1.map StageResult.stage <+: ts.map fun t => t.1.name := by
  induction ts generalizing c with
  | nil => exact List.prefix_refl _
  | cons t ts ih =>
    cases hr : (t.verdict fails).result t.1 c with
    | error e =>
      rw [trace_cons_error hr]
      exact List.nil_prefix
    | ok r =>
      rw [trace_cons_ok hr, List.map_cons, List.map_cons, stage_of_result hr]
      exact List.prefix_cons_inj _ |>.mpr (ih _)

theorem trace_stages {ts : List (Slot Job Data)} (h : (trace fails ts c).2 = none) :
    (trace fails ts c).1.map StageResult.stage = ts.map fun t => t.1.name := by
  induction ts generalizing c with
  | nil => rfl
  | cons t ts ih =>
    cases hr : (t.verdict fails).result t.1 c with
    | error e =>
      rw [trace_cons_error hr] at h
      cases h
    | ok r =>
      rw [trace_cons_ok hr] at h ⊢
      rw [List.map_cons, List.map_cons, stage_of_result hr, ih h]

/-- A trace depends on the failures of its stages alone. -/
theorem trace_congr {ts : List (Slot Job Data)}
    (h : ∀ t ∈ ts, fails t.1.name = fails' t.1.name) (c : Context Job Data) :
    trace fails ts c = trace fails' ts c := by
  induction ts generalizing c with
  | nil => rfl
  | cons t ts ih =>
    have hverdict : t.verdict fails = t.verdict fails' := by
      have ht := h t List.mem_cons_self
      simp only [Slot.verdict, inGroup, alone, ht]
    have hrest := ih fun t' ht' => h t' (List.mem_cons_of_mem _ ht')
    simp only [trace, hverdict, hrest]

/-- Without failures a trace has a result for each stage. -/
theorem trace_of_no_failure {ts : List (Slot Job Data)}
    (h : ∀ t ∈ ts, fails t.1.name = fun _ => none) (c : Context Job Data) :
    (trace fails ts c).2 = none := by
  induction ts generalizing c with
  | nil => rfl
  | cons t ts ih =>
    have hverdict : t.verdict fails = .succeeded := by
      have ht := h t List.mem_cons_self
      unfold Slot.verdict
      split <;> simp [inGroup, alone, settle, ht]
    have hr : (t.verdict fails).result t.1 c = .ok (t.1.run c) := by rw [hverdict]; rfl
    rw [trace_cons_ok hr]
    exact ih (fun t' ht' => h t' (List.mem_cons_of_mem _ ht')) _

/-! ## The members of a group -/

/-- What a trace comes to for an entry as a whole: all results, or an error. -/
def settled (t : List (StageResult Data) × Option PipelineError) :
    Except PipelineError (List (StageResult Data)) :=
  match t.2 with
  | none => .ok t.1
  | some e => .error e

/-- The members of a group do not read each other's results. -/
def Independent (members : List (PipelineStage Job Data)) : Prop :=
  ∀ s ∈ members, ∀ t ∈ members, s.name ≠ t.name → ∀ (c : Context Job Data) (r : StageResult Data),
    r.stage = t.name → s.produce (c.withResult r) = s.produce c

theorem Verdict.result_congr {v : Verdict} {s : PipelineStage Job Data} {c c' : Context Job Data}
    (h : s.produce c = s.produce c') : v.result s c = v.result s c' := by
  cases v with
  | succeeded => simp only [Verdict.result, PipelineStage.run, h]
  | skipped | raised => rfl

/-- A result, or an error, of each member, from where the group has started. -/
theorem runMembers_trace {members : List (PipelineStage Job Data)}
    (hnames : (members.map PipelineStage.name).Nodup) (hindependent : Independent members)
    {start : Context Job Data} (hstart : ∀ s ∈ members, s.produce start = s.produce c) :
    (runMembers fails start members).1 = settled (trace fails (members.map fun s => (s, true)) c) := by
  induction members generalizing c with
  | nil => rfl
  | cons s members ih =>
    rw [List.map_cons, List.nodup_cons] at hnames
    have hsame : (inGroup fails s).1.result s start = (inGroup fails s).1.result s c :=
      Verdict.result_congr (hstart s List.mem_cons_self)
    have hverdict : Slot.verdict fails ((s, true) : Slot Job Data) = (inGroup fails s).1 := if_pos rfl
    simp only [runMembers, List.map_cons, trace, hverdict, hsame]
    cases hr : (inGroup fails s).1.result s c with
    | error e => rfl
    | ok r =>
      -- the others do not read what this member returns
      have hnext : ∀ t ∈ members, t.produce start = t.produce (c.withResult r) := by
        intro t ht
        have hne : t.name ≠ s.name := by
          intro heq
          exact hnames.1 (heq ▸ List.mem_map_of_mem ht)
        rw [hindependent t (List.mem_cons_of_mem _ ht) s List.mem_cons_self hne c r
          (stage_of_result hr)]
        exact hstart t (List.mem_cons_of_mem _ ht)
      have hrest : Independent members := fun t ht t' ht' =>
        hindependent t (List.mem_cons_of_mem _ ht) t' (List.mem_cons_of_mem _ ht')
      dsimp only
      rw [ih hnames.2 hrest hnext]
      unfold settled
      dsimp only
      cases (trace fails (members.map fun t => (t, true)) (c.withResult r)).2 <;> rfl

/-! ## Entries -/

/-- The members of every group do not read each other's results. -/
def Entry.Independent : Entry Job Data → Prop
  | .stage _ => True
  | .group stages => Pipeline.Independent stages

/-- **An entry has the results of its trace, or none of them.** -/
theorem runEntry_trace {entry : Entry Job Data}
    (hnames : (entry.members.map PipelineStage.name).Nodup) (hentry : entry.Independent) :
    (runEntry fails c entry).1 = settled (trace fails entry.slots c) := by
  cases entry with
  | stage s =>
    have hverdict : Slot.verdict fails ((s, false) : Slot Job Data) = (alone fails s).1 :=
      if_neg (by simp)
    simp only [runEntry, Entry.slots, trace, hverdict]
    cases (alone fails s).1.result s c <;> rfl
  | group members =>
    exact runMembers_trace hnames hentry fun _ _ => rfl

/-- An entry executes its members only. -/
theorem mem_runMembers {members : List (PipelineStage Job Data)} {name : String}
    (h : name ∈ (runMembers fails c members).2) : name ∈ members.map PipelineStage.name := by
  induction members with
  | nil => cases h
  | cons s members ih =>
    rw [List.map_cons, List.mem_cons]
    unfold runMembers at h
    dsimp only at h
    split at h
    · exact Or.inl (List.eq_of_mem_replicate h)
    · rcases List.mem_append.mp h with h | h
      · exact Or.inl (List.eq_of_mem_replicate h)
      · exact Or.inr (ih h)

theorem mem_runEntry {entry : Entry Job Data} {name : String} (h : name ∈ (runEntry fails c entry).2) :
    name ∈ entry.members.map PipelineStage.name := by
  cases entry with
  | stage s => exact List.mem_singleton.mpr (List.eq_of_mem_replicate h)
  | group members =>
    rcases List.mem_append.mp h with h | h
    · exact h
    · exact mem_runMembers h

/-! ## Runs -/

theorem saves_append (position : ℕ) (rs rs' : List (StageResult Data)) :
    plan.saves position (rs ++ rs') =
      plan.saves position rs ++ plan.saves (position + rs.length) rs' := by
  induction rs generalizing position with
  | nil => rfl
  | cons r rs ih =>
    rw [List.cons_append, Plan.saves, ih, Plan.saves, List.cons_append, List.length_cons,
      Nat.add_assoc, Nat.add_comm 1]

theorem saves_map_result (plan : Plan Job Data) (position : ℕ) (rs : List (StageResult Data)) :
    (plan.saves position rs).map Progress.result = rs := by
  induction rs generalizing position with
  | nil => rfl
  | cons r rs ih => rw [Plan.saves, List.map_cons, ih]

/-- What a run does is what a trace does, up to a point. -/
structure Report.Follows (report : Report Job Data) (plan : Plan Job Data) (position : ℕ)
    (c : Context Job Data) (t : List (StageResult Data) × Option PipelineError)
    (results : List (StageResult Data)) : Prop where
  saved : report.saved = plan.saves position results
  context : report.context = c.withResults results
  isPrefix : results <+: t.1
  completed : report.outcome = .completed → t = (results, none)
  raised : ∀ e, report.outcome = .raised e → t.2 = some e

/-- **A run follows its trace.** -/
theorem runEntries_follows (hnames : ((flatten entries).map PipelineStage.name).Nodup)
    (hentries : ∀ entry ∈ entries, entry.Independent) (plan : Plan Job Data) (fails : Failures)
    (stops : ℕ → Bool) (turn position : ℕ) (c : Context Job Data) :
    ∃ results, (runEntries plan fails stops entries turn position c).Follows plan position c
      (trace fails (slots entries) c) results := by
  induction entries generalizing turn position c with
  | nil => exact ⟨[], rfl, rfl, List.nil_prefix, fun _ => rfl, fun e he => by cases he⟩
  | cons entry entries ih =>
    have hflat : flatten (entry :: entries) = entry.members ++ flatten entries := List.flatMap_cons
    have hslots : slots (entry :: entries) = entry.slots ++ slots entries := List.flatMap_cons
    rw [hflat, List.map_append, List.nodup_append] at hnames
    have hentry : (runEntry fails c entry).1 = settled (trace fails entry.slots c) :=
      runEntry_trace hnames.1 (hentries entry List.mem_cons_self)
    unfold runEntries
    by_cases hstop : stops turn = true
    · rw [if_pos hstop]
      exact ⟨[], rfl, rfl, List.nil_prefix, fun h => (by cases h), fun e he => by cases he⟩
    · rw [if_neg hstop]
      cases herror : (trace fails entry.slots c).2 with
      | some e =>
        -- the entry raises, and its results are not saved
        have hrun : runEntry fails c entry = (.error e, (runEntry fails c entry).2) := by
          rw [← Prod.eta (runEntry fails c entry), hentry, settled, herror]
        rw [hrun]
        refine ⟨[], rfl, rfl, List.nil_prefix, fun h => (by cases h), fun e' he' => ?_⟩
        obtain rfl : e = e' := Outcome.raised.inj he'
        rw [hslots, trace_append_error herror, herror]
      | none =>
        have hrun : runEntry fails c entry =
            (.ok (trace fails entry.slots c).1, (runEntry fails c entry).2) := by
          rw [← Prod.eta (runEntry fails c entry), hentry, settled, herror]
        rw [hrun]
        dsimp only
        obtain ⟨results, hfollows⟩ := ih hnames.2.1
          (fun entry' h => hentries entry' (List.mem_cons_of_mem _ h)) (turn + 1)
          (position + (trace fails entry.slots c).1.length) (c.withResults (trace fails entry.slots c).1)
        rw [hslots, trace_append herror]
        refine ⟨(trace fails entry.slots c).1 ++ results, ?_, ?_, ?_, fun hdone => ?_, hfollows.raised⟩
        · rw [saves_append, ← hfollows.saved]
          rfl
        · rw [withResults_append]
          exact hfollows.context
        · exact (List.prefix_append_right_inj _).mpr hfollows.isPrefix
        · have hrest := hfollows.completed hdone
          rw [hrest]

/-- A run that is not interrupted completes if its trace does. -/
theorem runEntries_completed (hnames : ((flatten entries).map PipelineStage.name).Nodup)
    (hentries : ∀ entry ∈ entries, entry.Independent) (hstops : ∀ turn, stops turn = false)
    (turn position : ℕ) (htrace : (trace fails (slots entries) c).2 = none) :
    (runEntries plan fails stops entries turn position c).outcome = .completed := by
  induction entries generalizing turn position c with
  | nil => rfl
  | cons entry entries ih =>
    have hflat : flatten (entry :: entries) = entry.members ++ flatten entries := List.flatMap_cons
    have hslots : slots (entry :: entries) = entry.slots ++ slots entries := List.flatMap_cons
    rw [hflat, List.map_append, List.nodup_append] at hnames
    have hentry : (runEntry fails c entry).1 = settled (trace fails entry.slots c) :=
      runEntry_trace hnames.1 (hentries entry List.mem_cons_self)
    rw [hslots] at htrace
    cases herror : (trace fails entry.slots c).2 with
    | some e =>
      rw [trace_append_error herror, herror] at htrace
      cases htrace
    | none =>
      have hrun : runEntry fails c entry =
          (.ok (trace fails entry.slots c).1, (runEntry fails c entry).2) := by
        rw [← Prod.eta (runEntry fails c entry), hentry, settled, herror]
      rw [trace_append herror] at htrace
      unfold runEntries
      rw [if_neg (by rw [hstops turn]; simp), hrun]
      exact ih hnames.2.1 (fun entry' h => hentries entry' (List.mem_cons_of_mem _ h)) _ _ htrace

/-- A run executes the stages of its entries only. -/
theorem mem_runEntries {name : String} {turn position : ℕ}
    (h : name ∈ (runEntries plan fails stops entries turn position c).executed) :
    name ∈ (flatten entries).map PipelineStage.name := by
  induction entries generalizing turn position c with
  | nil => cases h
  | cons entry entries ih =>
    have hflat : flatten (entry :: entries) = entry.members ++ flatten entries := List.flatMap_cons
    rw [hflat, List.map_append, List.mem_append]
    unfold runEntries at h
    split at h
    · cases h
    · dsimp only at h
      split at h
      next e executed hrun =>
        exact Or.inl (mem_runEntry (by rw [hrun]; exact h))
      next results executed hrun =>
        rcases List.mem_append.mp h with h | h
        · exact Or.inl (mem_runEntry (by rw [hrun]; exact h))
        · exact Or.inr (ih h)

/-! ## The names of what is saved -/

theorem stages_of_runMembers {members : List (PipelineStage Job Data)}
    {results : List (StageResult Data)} (h : (runMembers fails c members).1 = .ok results) :
    results.map StageResult.stage = members.map PipelineStage.name := by
  induction members generalizing results with
  | nil =>
    obtain rfl : [] = results := Except.ok.inj h
    rfl
  | cons s members ih =>
    unfold runMembers at h
    dsimp only at h
    split at h
    · cases h
    next r hr =>
      cases hrest : (runMembers fails c members).1 with
      | error e =>
        rw [hrest] at h
        cases h
      | ok rest =>
        rw [hrest] at h
        obtain rfl : r :: rest = results := Except.ok.inj h
        rw [List.map_cons, List.map_cons, stage_of_result hr, ih hrest]

theorem stages_of_runEntry {entry : Entry Job Data} {results : List (StageResult Data)}
    (h : (runEntry fails c entry).1 = .ok results) :
    results.map StageResult.stage = entry.members.map PipelineStage.name := by
  cases entry with
  | stage s =>
    unfold runEntry at h
    dsimp only at h
    cases hr : (alone fails s).1.result s c with
    | error e =>
      rw [hr] at h
      cases h
    | ok r =>
      rw [hr] at h
      obtain rfl : [r] = results := Except.ok.inj h
      exact congrArg (· :: []) (stage_of_result hr)
  | group members => exact stages_of_runMembers h

/-- **A run that completes has saved every stage.** -/
theorem stages_of_completed {turn position : ℕ}
    (h : (runEntries plan fails stops entries turn position c).outcome = .completed) :
    (runEntries plan fails stops entries turn position c).saved.map (fun p => p.result.stage) =
      (flatten entries).map PipelineStage.name := by
  induction entries generalizing turn position c with
  | nil => rfl
  | cons entry entries ih =>
    have hflat : flatten (entry :: entries) = entry.members ++ flatten entries := List.flatMap_cons
    rw [hflat, List.map_append]
    unfold runEntries at h ⊢
    split at h
    · cases h
    next hstops =>
      rw [if_neg hstops]
      dsimp only at h ⊢
      split at h
      · cases h
      next results executed hrun =>
        have hresults : (runEntry fails c entry).1 = .ok results := by rw [hrun]
        have hsaved := congrArg (List.map StageResult.stage)
          (saves_map_result plan position results)
        rw [List.map_map] at hsaved
        rw [List.map_append, ih h, ← stages_of_runEntry hresults, ← hsaved]
        rfl

end VocalCoach.Pipeline
