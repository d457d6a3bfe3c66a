/-
# A run that is started again

What earlier runs have saved is `already_done` of the next one.  However often a job was
interrupted, wherever each run ended, that is what a trace saves for the first stages of the
flat list (`Prefixed`), and the next run goes on with the rest (`run_resumes`).

`Saved` also keeps which failures each saved stage has met.  With these failures one run from
the start saves the same.
-/
import VocalCoach.Traces

namespace VocalCoach.Pipeline

variable {Job Data : Type} {entries : List (Entry Job Data)} {initial c : Context Job Data}
variable {mode : Option Mode} {fails : Failures} {stops : ℕ → Bool}

/-! ## Entries that are kept in part -/

theorem slots_restrict (keep : PipelineStage Job Data → Bool) (entries : List (Entry Job Data)) :
    slots (entries.filterMap (Entry.restrict keep)) = (slots entries).filter fun t => keep t.1 := by
  induction entries with
  | nil => rfl
  | cons entry entries ih =>
    have hslots : slots (entry :: entries) = entry.slots ++ slots entries := List.flatMap_cons
    rw [hslots, List.filter_append, ← ih]
    cases entry with
    | stage s =>
      by_cases hkeep : keep s = true
      · simp [Entry.restrict, Entry.slots, slots, hkeep]
      · simp [Entry.restrict, Entry.slots, slots, hkeep]
    | group stages =>
      have hfilter : (stages.map fun s => ((s, true) : Slot Job Data)).filter (fun t => keep t.1) =
          (stages.filter keep).map fun s => (s, true) := by
        rw [List.filter_map]
        rfl
      by_cases hempty : (stages.filter keep).isEmpty = true
      · rw [List.isEmpty_iff] at hempty
        simp [Entry.restrict, Entry.slots, hfilter, hempty]
      · rw [List.filterMap_cons_some (by simp only [Entry.restrict, hempty]; rfl)]
        simp only [slots, List.flatMap_cons, Entry.slots, hfilter]

theorem flatten_restrict (keep : PipelineStage Job Data → Bool) (entries : List (Entry Job Data)) :
    flatten (entries.filterMap (Entry.restrict keep)) = (flatten entries).filter keep := by
  rw [← slots_map_fst, slots_restrict, ← slots_map_fst, List.filter_map]
  rfl

theorem independent_restrict {keep : PipelineStage Job Data → Bool}
    (h : ∀ entry ∈ entries, entry.Independent) :
    ∀ entry ∈ entries.filterMap (Entry.restrict keep), entry.Independent := by
  intro entry hentry
  obtain ⟨whole, hwhole, hrestrict⟩ := List.mem_filterMap.mp hentry
  cases whole with
  | stage s =>
    rw [Entry.restrict, Option.ite_none_right_eq_some] at hrestrict
    obtain rfl := Option.some.inj hrestrict.2
    trivial
  | group stages =>
    simp only [Entry.restrict, Option.ite_none_left_eq_some] at hrestrict
    obtain rfl := Option.some.inj hrestrict.2
    intro s hs t ht
    exact h _ hwhole s (List.mem_of_mem_filter hs) t (List.mem_of_mem_filter ht)

/-- The entries of a mode are well formed if all of them are. -/
theorem independent_stagesForMode (h : ∀ entry ∈ entries, entry.Independent) :
    ∀ entry ∈ stagesForMode entries mode, entry.Independent := by
  cases mode with
  | none => exact h
  | some mode => exact independent_restrict h

theorem nodup_stagesForMode (h : ((flatten entries).map PipelineStage.name).Nodup)
    (mode : Option Mode) :
    ((flatten (stagesForMode entries mode)).map PipelineStage.name).Nodup := by
  cases mode with
  | none => exact h
  | some mode =>
    rw [stagesForMode, flatten_restrict]
    exact h.sublist (List.filter_sublist.map _)

theorem nodup_slots (h : ((flatten entries).map PipelineStage.name).Nodup) (mode : Option Mode) :
    ((slots (stagesForMode entries mode)).map fun t => t.1.name).Nodup := by
  have hmode := nodup_stagesForMode h mode
  rw [← slots_map_fst, List.map_map] at hmode
  exact hmode

theorem nodup_remainingEntries (h : ((flatten entries).map PipelineStage.name).Nodup)
    (alreadyDone : Completed Data) (mode : Option Mode) :
    ((flatten (remainingEntries (stagesForMode entries mode) alreadyDone)).map
      PipelineStage.name).Nodup := by
  rw [remainingEntries, flatten_restrict]
  exact (nodup_stagesForMode h mode).sublist (List.filter_sublist.map _)

/-- The names of the stages that are left. -/
theorem names_remaining (entries : List (Entry Job Data)) (alreadyDone : Completed Data)
    (mode : Option Mode) :
    (flatten (remainingEntries (stagesForMode entries mode) alreadyDone)).map PipelineStage.name =
      ((flatten (stagesForMode entries mode)).map PipelineStage.name).filter
        fun name => (alreadyDone name).isNone := by
  rw [List.filter_map, remainingEntries, flatten_restrict]
  rfl

theorem slots_remaining_none (entries : List (Entry Job Data)) :
    slots (remainingEntries entries fun _ => none) = slots entries := by
  rw [remainingEntries, slots_restrict, List.filter_eq_self]
  intro _ _
  rfl

/-! ## What has been saved -/

/-- `already_done` with more results. -/
def record (done : Completed Data) (results : List (StageResult Data)) : Completed Data :=
  results.foldl (fun done r => Function.update done r.stage (some r)) done

/-- The failures of stages, of which these were executed last in another run. -/
def meetsAt (met fails : Failures) (names : List String) : Failures :=
  fun name => if name ∈ names then fails name else met name

/-- **What earlier runs may have saved**, each from what those before it had, with any failures,
stopped anywhere or cut off after any of its saves; and the failures that each saved stage
has met in the run that saved it. -/
inductive Saved (entries : List (Entry Job Data)) (initial : Context Job Data)
    (mode : Option Mode) : Completed Data → Failures → Prop
  | nothing : Saved entries initial mode (fun _ => none) fun _ _ => none
  | run {done : Completed Data} {met : Failures} (h : Saved entries initial mode done met)
      (fails : Failures) (stops : ℕ → Bool) (saved : List (Progress Data))
      (hcut : saved <+: (run entries initial done fails stops mode).saved) :
      Saved entries initial mode (record done (saved.map Progress.result))
        (meetsAt met fails (saved.map fun p => p.result.stage))

/-- The context a run starts with. -/
def startContext (initial : Context Job Data) (alreadyDone : Completed Data) : Context Job Data :=
  { initial with completed := fun name => (alreadyDone name).or (initial.completed name) }

theorem startContext_none (initial : Context Job Data) : startContext initial (fun _ => none) = initial := by
  simp [startContext]

/-- What was recorded is in the context the next run starts with. -/
theorem startContext_record (done : Completed Data) (results : List (StageResult Data)) :
    startContext initial (record done results) = (startContext initial done).withResults results := by
  induction results generalizing done with
  | nil => rfl
  | cons r results ih =>
    rw [withResults_cons, record, List.foldl_cons, ← record, ih]
    congr 1
    simp only [startContext, Context.withResult, Context.mk.injEq, true_and]
    funext name
    by_cases hname : name = r.stage
    · subst hname
      simp
    · simp [hname]

theorem record_eq_none {results : List (StageResult Data)} {done : Completed Data} {name : String} :
    record done results name = none ↔ done name = none ∧ name ∉ results.map StageResult.stage := by
  induction results generalizing done with
  | nil => simp [record]
  | cons r results ih =>
    rw [record, List.foldl_cons, ← record, ih, List.map_cons, List.mem_cons, not_or]
    by_cases hname : name = r.stage
    · subst hname
      simp
    · simp [hname]

theorem record_append (done : Completed Data) (rs rs' : List (StageResult Data)) :
    record done (rs ++ rs') = record (record done rs) rs' :=
  List.foldl_append ..

/-! ## The first stages -/

/-- Results that are the first of a trace are those of the first stages. -/
theorem trace_take {ts : List (Slot Job Data)} {results : List (StageResult Data)}
    (h : results <+: (trace fails ts c).1) :
    trace fails (ts.take results.length) c = (results, none) := by
  induction ts generalizing c results with
  | nil =>
    rw [List.prefix_nil.mp h]
    rfl
  | cons t ts ih =>
    cases results with
    | nil => rfl
    | cons r results =>
      cases hr : (t.verdict fails).result t.1 c with
      | error e =>
        rw [trace_cons_error hr] at h
        cases List.prefix_nil.mp h
      | ok r' =>
        rw [trace_cons_ok hr, List.cons_prefix_cons] at h
        obtain ⟨rfl, h⟩ := h
        rw [List.length_cons, List.take_succ_cons, trace_cons_ok hr, ih h]

/-- The stages that are left once the first have been recorded. -/
theorem filter_record {xs ys : List (Slot Job Data)} {results : List (StageResult Data)}
    (hnames : ((xs ++ ys).map fun t => t.1.name).Nodup)
    (hresults : results.map StageResult.stage = xs.map fun t => t.1.name) :
    (xs ++ ys).filter (fun t => (record (fun _ => none) results t.1.name).isNone) = ys := by
  have hnone (t : Slot Job Data) : (record (fun _ => none) results t.1.name).isNone = true ↔
      t.1.name ∉ xs.map fun t => t.1.name := by
    rw [Option.isNone_iff_eq_none, record_eq_none, hresults]
    exact and_iff_right rfl
  rw [List.map_append, List.nodup_append] at hnames
  have hxs : xs.filter (fun t => (record (fun _ => none) results t.1.name).isNone) = [] := by
    rw [List.filter_eq_nil_iff]
    intro t ht hleft
    exact (hnone t).mp hleft (List.mem_map_of_mem ht)
  have hys : ys.filter (fun t => (record (fun _ => none) results t.1.name).isNone) = ys := by
    rw [List.filter_eq_self]
    intro t ht
    rw [hnone t]
    intro hmem
    exact hnames.2.2 _ hmem _ (List.mem_map_of_mem ht) rfl
  rw [List.filter_append, hxs, hys, List.nil_append]

theorem saves_map_stage {plan : Plan Job Data} (position : ℕ) (rs : List (StageResult Data)) :
    (plan.saves position rs).map (fun p => p.result.stage) = rs.map StageResult.stage := by
  have hresult := congrArg (List.map StageResult.stage) (saves_map_result plan position rs)
  rw [List.map_map] at hresult
  exact hresult

/-- The saves for the last stages do not depend on how many came before. -/
theorem saves_drop (plan whole : Plan Job Data) (xs : List (PipelineStage Job Data))
    (hpositions : whole.positions = plan.positions) (htotal : whole.total = plan.total)
    (hflat : whole.remainingFlat = xs ++ plan.remainingFlat) (position : ℕ)
    (rs : List (StageResult Data)) :
    whole.saves (xs.length + position) rs = plan.saves position rs := by
  induction rs generalizing position with
  | nil => rfl
  | cons r rs ih =>
    have hnext : whole.remainingFlat[xs.length + position + 1]? =
        plan.remainingFlat[position + 1]? := by
      rw [hflat, Nat.add_assoc, List.getElem?_append_right (by omega), Nat.add_sub_cancel_left]
    rw [Plan.saves, Plan.saves, hnext, hpositions, htotal, Nat.add_assoc, ih]

/-- **The saved results are those of the first stages**, in a trace with the failures that were
met; the other stages have met none. -/
structure Prefixed (xs ys : List (Slot Job Data)) (initial : Context Job Data)
    (alreadyDone : Completed Data) (met : Failures) (results : List (StageResult Data)) : Prop where
  trace : trace met xs initial = (results, none)
  recorded : alreadyDone = record (fun _ => none) results
  unmet : ∀ t ∈ ys, met t.1.name = fun _ => none

section Prefixed

variable {xs ys : List (Slot Job Data)} {alreadyDone : Completed Data} {met : Failures}
variable {results : List (StageResult Data)}

theorem Prefixed.stages (h : Prefixed xs ys initial alreadyDone met results) :
    results.map StageResult.stage = xs.map fun t => t.1.name := by
  have htrace : (Pipeline.trace met xs initial).2 = none := by rw [h.trace]
  rw [← trace_stages htrace, h.trace]

/-- The next run starts where the recorded results lead. -/
theorem Prefixed.startContext (h : Prefixed xs ys initial alreadyDone met results) :
    startContext initial alreadyDone = initial.withResults results := by
  rw [h.recorded, startContext_record, startContext_none]

/-- What is left for the next run. -/
theorem Prefixed.slots_remaining (h : Prefixed xs ys initial alreadyDone met results)
    (hslots : slots (stagesForMode entries mode) = xs ++ ys)
    (hnames : ((flatten entries).map PipelineStage.name).Nodup) :
    slots (remainingEntries (stagesForMode entries mode) alreadyDone) = ys := by
  have hnodup := hslots ▸ nodup_slots hnames mode
  rw [remainingEntries, slots_restrict, hslots, h.recorded]
  exact filter_record hnodup h.stages

/-- The failures of the run that does the rest: one trace from the start meets them all. -/
theorem Prefixed.trace_whole (h : Prefixed xs ys initial alreadyDone met results)
    (hnames : ((xs ++ ys).map fun t => t.1.name).Nodup) {zs : List (Slot Job Data)}
    (hzs : zs ⊆ ys) {names : List String} (hnamed : names = zs.map fun t => t.1.name)
    (hrest : (Pipeline.trace fails zs (initial.withResults results)).2 = none) :
    Pipeline.trace (meetsAt met fails names) (xs ++ zs) initial =
      (results ++ (Pipeline.trace fails zs (initial.withResults results)).1, none) := by
  subst hnamed
  rw [List.map_append, List.nodup_append] at hnames
  have hxs : Pipeline.trace (meetsAt met fails (zs.map fun t => t.1.name)) xs initial =
      (results, none) := by
    rw [← h.trace]
    refine trace_congr (fun t ht => ?_) _
    refine if_neg fun hmem => ?_
    obtain ⟨t', ht', heq⟩ := List.mem_map.mp hmem
    exact hnames.2.2 _ (List.mem_map_of_mem ht) _ (List.mem_map_of_mem (hzs ht')) heq.symm
  have hzs' : Pipeline.trace (meetsAt met fails (zs.map fun t => t.1.name)) zs
      (initial.withResults results) = Pipeline.trace fails zs (initial.withResults results) :=
    trace_congr (fun t ht => if_pos (List.mem_map_of_mem ht)) _
  rw [trace_append (by rw [hxs]), hxs]
  dsimp only
  rw [hzs', hrest]

end Prefixed

/-! ## Runs -/

/-- What `run` works out before its loop. -/
def planFor (entries : List (Entry Job Data)) (alreadyDone : Completed Data) (mode : Option Mode) :
    Plan Job Data :=
  { positions := stagePositions (flatten (stagesForMode entries mode))
    total := (flatten (stagesForMode entries mode)).length
    remainingFlat := flatten (remainingEntries (stagesForMode entries mode) alreadyDone) }

/-- The saves of a run that is started again are the last ones of a run from the start. -/
theorem Prefixed.saves_suffix {xs ys : List (Slot Job Data)} {alreadyDone : Completed Data}
    {met : Failures} {results : List (StageResult Data)}
    (h : Prefixed xs ys initial alreadyDone met results)
    (hslots : slots (stagesForMode entries mode) = xs ++ ys)
    (hnames : ((flatten entries).map PipelineStage.name).Nodup) (rs : List (StageResult Data)) :
    (planFor entries alreadyDone mode).saves 0 rs <:+
      (planFor entries (fun _ => none) mode).saves 0 (results ++ rs) := by
  have hflat : flatten (remainingEntries (stagesForMode entries mode) alreadyDone) =
      ys.map Prod.fst := by
    rw [← slots_map_fst, h.slots_remaining hslots hnames]
  have hwhole : flatten (remainingEntries (stagesForMode entries mode) fun _ => none) =
      xs.map Prod.fst ++ ys.map Prod.fst := by
    rw [← slots_map_fst, slots_remaining_none, hslots, List.map_append]
  have hlength : (xs.map Prod.fst).length = results.length := by
    have hxs := congrArg List.length h.stages
    rw [List.length_map, List.length_map] at hxs
    rw [List.length_map, hxs]
  have hlast := saves_drop (planFor entries alreadyDone mode) (planFor entries (fun _ => none) mode)
    (xs.map Prod.fst) rfl rfl (by rw [planFor, planFor, hwhole, hflat]) 0 rs
  rw [saves_append, ← hlast, hlength, Nat.zero_add, Nat.add_zero]
  exact List.suffix_append _ _

section Runs

variable {alreadyDone : Completed Data}
variable (hnames : ((flatten entries).map PipelineStage.name).Nodup)
variable (hentries : ∀ entry ∈ entries, entry.Independent)

include hnames hentries

/-- A run follows the trace of the stages that are left. -/
theorem run_follows (initial : Context Job Data) (alreadyDone : Completed Data) (fails : Failures)
    (stops : ℕ → Bool) (mode : Option Mode) : ∃ results,
    (run entries initial alreadyDone fails stops mode).Follows (planFor entries alreadyDone mode) 0
      (startContext initial alreadyDone)
      (trace fails (slots (remainingEntries (stagesForMode entries mode) alreadyDone))
        (startContext initial alreadyDone)) results := by
  obtain ⟨results, h⟩ := runEntries_follows (nodup_remainingEntries hnames alreadyDone mode)
    (independent_restrict (independent_stagesForMode hentries)) (planFor entries alreadyDone mode)
    fails stops 0 0 (startContext initial alreadyDone)
  exact ⟨results, h.saved, h.context, h.isPrefix, h.completed, h.raised⟩

/-- **Whatever earlier runs have saved, they have saved the first stages.** -/
theorem Saved.prefixed {met : Failures} (h : Saved entries initial mode alreadyDone met) :
    ∃ xs ys results, slots (stagesForMode entries mode) = xs ++ ys ∧
      Prefixed xs ys initial alreadyDone met results := by
  induction h with
  | nothing => exact ⟨[], _, [], rfl, rfl, rfl, fun _ _ => rfl⟩
  | run h fails stops saved hcut ih =>
    rename_i done met
    obtain ⟨xs, ys, results, hslots, hprefixed⟩ := ih
    have hnodup := hslots ▸ nodup_slots hnames mode
    obtain ⟨rs, hfollows⟩ := run_follows hnames hentries initial done fails stops mode
    rw [hprefixed.slots_remaining hslots hnames, hprefixed.startContext] at hfollows
    -- what this run saves are the results of a trace
    have hmore : saved.map Progress.result <+:
        (trace fails ys (initial.withResults results)).1 := by
      have hmap := hcut.map Progress.result
      rw [hfollows.saved, saves_map_result] at hmap
      exact hmap.trans hfollows.isPrefix
    have htake := trace_take hmore
    have hstages : (saved.map fun p => p.result.stage) =
        (ys.take (saved.map Progress.result).length).map fun t => t.1.name := by
      have hnone : (trace fails (ys.take (saved.map Progress.result).length)
          (initial.withResults results)).2 = none := by rw [htake]
      rw [← trace_stages hnone, htake, List.map_map]
      rfl
    refine ⟨xs ++ ys.take (saved.map Progress.result).length,
      ys.drop (saved.map Progress.result).length, results ++ saved.map Progress.result, ?_, ?_, ?_, ?_⟩
    · rw [List.append_assoc, List.take_append_drop, hslots]
    · rw [hprefixed.trace_whole hnodup (List.take_subset _ _) hstages (by rw [htake]), htake]
    · rw [record_append, hprefixed.recorded]
    · intro t ht
      have hlater : t.1.name ∉ saved.map fun p => p.result.stage := by
        rw [hstages]
        rw [List.map_append, List.nodup_append] at hnodup
        have hsplit := hnodup.2.1
        rw [← List.take_append_drop (saved.map Progress.result).length ys, List.map_append,
          List.nodup_append] at hsplit
        intro hmem
        exact hsplit.2.2 _ hmem _ (List.mem_map_of_mem ht) rfl
      rw [meetsAt, if_neg hlater]
      exact hprefixed.unmet t (List.mem_of_mem_drop ht)

/-- **A run that nothing interrupts does what its trace does.** -/
theorem run_of_trace {results : List (StageResult Data)}
    (htrace : trace fails (slots (remainingEntries (stagesForMode entries mode) alreadyDone))
      (startContext initial alreadyDone) = (results, none)) :
    (run entries initial alreadyDone fails (fun _ => false) mode).outcome = .completed ∧
      (run entries initial alreadyDone fails (fun _ => false) mode).saved =
        (planFor entries alreadyDone mode).saves 0 results ∧
      (run entries initial alreadyDone fails (fun _ => false) mode).context =
        (startContext initial alreadyDone).withResults results := by
  have hdone : (run entries initial alreadyDone fails (fun _ => false) mode).outcome = .completed :=
    runEntries_completed (nodup_remainingEntries hnames alreadyDone mode)
      (independent_restrict (independent_stagesForMode hentries)) (fun _ => rfl) 0 0
      (congrArg Prod.snd htrace)
  obtain ⟨rs, hfollows⟩ := run_follows hnames hentries initial alreadyDone fails (fun _ => false) mode
  have hsame := hfollows.completed hdone
  rw [htrace, Prod.mk.injEq] at hsame
  obtain rfl : results = rs := hsame.1
  exact ⟨hdone, hfollows.saved, hfollows.context⟩

/-- **A run that is started again goes on where the earlier ones were cut off.**  It executes no
stage whose result was saved, saves each of the others at most once and in order, and once it
is through it has saved them all.  It then ends as one run from the start that meets the same
failures, whose last saves are its own.  Where nothing fails it does get through, and where
nothing has failed before either, it ends as one run in which nothing fails. -/
theorem run_resumes {met : Failures} (hsaved : Saved entries initial mode alreadyDone met)
    (fails : Failures) (stops : ℕ → Bool) :
    let remaining := ((flatten (stagesForMode entries mode)).map PipelineStage.name).filter
      fun name => (alreadyDone name).isNone
    let resumed := run entries initial alreadyDone fails stops mode
    let whole := run entries initial (fun _ => none) (meetsAt met fails remaining)
      (fun _ => false) mode
    (∀ name ∈ resumed.executed, alreadyDone name = none) ∧
      remaining.Nodup ∧ resumed.saved.map (fun p => p.result.stage) <+: remaining ∧
      (resumed.outcome = .completed →
        resumed.saved.map (fun p => p.result.stage) = remaining ∧
          whole.outcome = .completed ∧ resumed.saved <:+ whole.saved ∧
          resumed.context = whole.context) ∧
      (fails = (fun _ _ => none) → (∀ turn, stops turn = false) →
        resumed.outcome = .completed ∧ (met = (fun _ _ => none) → resumed.context =
          (run entries initial (fun _ => none) (fun _ _ => none) (fun _ => false) mode).context)) := by
  intro remaining resumed whole
  obtain ⟨xs, ys, results, hslots, hprefixed⟩ := hsaved.prefixed hnames hentries
  have hleft := hprefixed.slots_remaining hslots hnames
  have hnodup := hslots ▸ nodup_slots hnames mode
  have hremaining : remaining = ys.map fun t => t.1.name := by
    have hnamed := names_remaining entries alreadyDone mode
    rw [← slots_map_fst, hleft, List.map_map] at hnamed
    exact hnamed.symm
  obtain ⟨rs, hfollows⟩ := run_follows hnames hentries initial alreadyDone fails stops mode
  rw [hleft, hprefixed.startContext] at hfollows
  have hstages : resumed.saved.map (fun p => p.result.stage) = rs.map StageResult.stage := by
    rw [hfollows.saved, saves_map_stage]
  -- a run that gets through ends as one from the start
  have hthrough (hdone : resumed.outcome = .completed) :
      resumed.saved.map (fun p => p.result.stage) = remaining ∧ whole.outcome = .completed ∧
        resumed.saved <:+ whole.saved ∧ resumed.context = whole.context := by
    have hrest := hfollows.completed hdone
    have hall := hprefixed.trace_whole hnodup (List.Subset.refl ys) hremaining (by rw [hrest])
    rw [hrest, ← hslots] at hall
    have hfresh := slots_remaining_none (stagesForMode entries mode)
    rw [← hfresh, ← startContext_none initial] at hall
    obtain ⟨hwhole, hwholeSaved, hwholeContext⟩ := run_of_trace hnames hentries hall
    have hresumed : rs.map StageResult.stage = remaining := by
      rw [hremaining, ← trace_stages (by rw [hrest]), hrest]
    refine ⟨hstages.trans hresumed, hwhole, ?_, ?_⟩
    · rw [hfollows.saved, hwholeSaved]
      exact hprefixed.saves_suffix hslots hnames rs
    · rw [hfollows.context, hwholeContext, startContext_none, withResults_append]
  refine ⟨?_, ?_, ?_, hthrough, ?_⟩
  · intro name hname
    have hmem := mem_runEntries hname
    rw [names_remaining] at hmem
    exact Option.isNone_iff_eq_none.mp (List.mem_filter.mp hmem).2
  · exact (nodup_stagesForMode hnames mode).sublist List.filter_sublist
  · rw [hstages, hremaining]
    exact (hfollows.isPrefix.map StageResult.stage).trans (trace_stages_isPrefix _ _)
  · intro hfails hstops
    have hdone : resumed.outcome = .completed := by
      refine runEntries_completed (nodup_remainingEntries hnames alreadyDone mode)
        (independent_restrict (independent_stagesForMode hentries)) hstops 0 0 ?_
      exact trace_of_no_failure (fun t _ => congrFun hfails t.1.name) _
    refine ⟨hdone, fun hmet => ?_⟩
    have hnever : meetsAt met fails remaining = fun _ _ => none := by
      rw [hmet, hfails]
      funext name
      exact ite_self _
    rw [(hthrough hdone).2.2.2, ← hnever]

end Runs

/-- A stage that adds up what the others have found. -/
def adding (name : String) (reads : List String) : PipelineStage Unit ℕ :=
  { name
    produce := fun c => (1, some (reads.foldl
      (fun total other => total + ((c.completed other).bind StageResult.data).getD 0) 1)) }

/-- Two stages, a group of two, and one that reads them. -/
def aspectEntries : List (Entry Unit ℕ) :=
  [.stage (adding "align" []), .group [adding "rhythm" ["align"], adding "timbre" ["align"]],
    .stage (adding "aggregate" ["rhythm", "timbre"])]

def freshContext : Context Unit ℕ := { job := (), completed := fun _ => none }

theorem nodup_aspectEntries : ((flatten aspectEntries).map PipelineStage.name).Nodup := by decide

theorem independent_aspectEntries : ∀ entry ∈ aspectEntries, entry.Independent := by
  intro entry hentry
  simp only [aspectEntries, List.mem_cons, List.not_mem_nil, or_false] at hentry
  rcases hentry with rfl | rfl | rfl
  · trivial
  · intro s hs t ht hne c r hr
    simp only [List.mem_cons, List.not_mem_nil, or_false] at hs ht
    rcases hs with rfl | rfl <;> rcases ht with rfl | rfl <;> simp_all [adding, Context.withResult]
  · trivial

/-- Cut off between the two saves of a group. -/
def cutAmidGroup : List (Progress ℕ) :=
  (run aspectEntries freshContext (fun _ => none) (fun _ _ => none) (fun _ => false) none).saved.take 2

theorem run_resumes_amidGroup :
    (run aspectEntries freshContext (record (fun _ => none) (cutAmidGroup.map Progress.result))
        (fun _ _ => none) (fun _ => false) none).context =
      (run aspectEntries freshContext (fun _ => none) (fun _ _ => none) (fun _ => false) none).context := by
  have hsaved : Saved aspectEntries freshContext none
      (record (fun _ => none) (cutAmidGroup.map Progress.result))
      (meetsAt (fun _ _ => none) (fun _ _ => none) (cutAmidGroup.map fun p => p.result.stage)) :=
    Saved.run .nothing (fun _ _ => none) (fun _ => false) cutAmidGroup (List.take_prefix _ _)
  have hresumes := run_resumes nodup_aspectEntries independent_aspectEntries hsaved (fun _ _ => none)
    (fun _ => false)
  refine (hresumes.2.2.2.2 rfl fun _ => rfl).2 ?_
  funext name
  exact ite_self _

end VocalCoach.Pipeline
