/-
# What the stages read of each other

`build_stages` and `build_prep_stages` of `worker.py`, and which results of other stages the
`run` of each stage looks up.  A lookup of a result that is not there is a `KeyError`.

`started` lists the entries a run starts with the context their members get.  Where the stages
that a stage reads come before it (`ReadsBefore`), it finds their results, whichever of them
earlier runs have saved (`started_reads`).  Both pipelines are in such an order.

In a context of `features` and `align` the voice is the recording or its separated stem, by the
mode alone.
-/
import VocalCoach.Aggregation
import VocalCoach.Resuming
import Mathlib.Data.List.Nodup

namespace VocalCoach.Pipeline

variable {Job Data : Type} {fails : Failures} {plan : Plan Job Data} {stops : ℕ → Bool}
variable {entries : List (Entry Job Data)} {c : Context Job Data} {alreadyDone : Completed Data}

/-! ## What a run starts -/

/-- The entries the loop of `run` starts, each with the context its members get. -/
def started (fails : Failures) (stops : ℕ → Bool) :
    List (Entry Job Data) → ℕ → Context Job Data → List (Entry Job Data × Context Job Data)
  | [], _, _ => []
  | entry :: entries, turn, context =>
      if stops turn then []
      else
        (entry, context) ::
          match (runEntry fails context entry).1 with
          | .error _ => []
          | .ok results =>
              started fails stops entries (turn + 1) (results.foldl Context.withResult context)

/-- What a run executes are the members of what it starts. -/
theorem executed_eq_started (turn position : ℕ) (c : Context Job Data) :
    (runEntries plan fails stops entries turn position c).executed =
      (started fails stops entries turn c).flatMap fun p => (runEntry fails p.2 p.1).2 := by
  induction entries generalizing turn position c with
  | nil => rfl
  | cons entry entries ih =>
    unfold runEntries started
    by_cases hstop : stops turn = true
    · rw [if_pos hstop, if_pos hstop]
      rfl
    · rw [if_neg hstop, if_neg hstop, List.flatMap_cons]
      rcases hrun : runEntry fails c entry with ⟨e | results, executed⟩
      · simp
      · dsimp only
        rw [ih]

/-! ## Names -/

/-- The names of the stages of entries. -/
def names (entries : List (Entry Job Data)) : List String :=
  (flatten entries).map PipelineStage.name

theorem names_cons (entry : Entry Job Data) (entries : List (Entry Job Data)) :
    names (entry :: entries) = entry.members.map PipelineStage.name ++ names entries := by
  rw [names, flatten, List.flatMap_cons, List.map_append]
  rfl

theorem mem_of_restrict {keep : PipelineStage Job Data → Bool} {entry entry' : Entry Job Data}
    (h : entry.restrict keep = some entry') {s : PipelineStage Job Data} (hs : s ∈ entry'.members) :
    s ∈ entry.members := by
  cases entry with
  | stage t =>
    rw [Entry.restrict, Option.ite_none_right_eq_some] at h
    obtain rfl := Option.some.inj h.2
    exact hs
  | group stages =>
    simp only [Entry.restrict, Option.ite_none_left_eq_some] at h
    obtain rfl := Option.some.inj h.2
    exact List.mem_of_mem_filter hs

theorem withResults_completed_isSome {results : List (StageResult Data)} {name : String}
    (h : name ∈ results.map StageResult.stage ∨ (c.completed name).isSome = true) :
    ((c.withResults results).completed name).isSome = true := by
  induction results generalizing c with
  | nil => exact h.resolve_left (by simp)
  | cons r results ih =>
    rw [withResults_cons]
    apply ih
    by_cases hname : name = r.stage
    · right
      subst hname
      simp [Context.withResult]
    · rw [List.map_cons, List.mem_cons] at h
      rcases h with (h | h) | h
      · exact absurd h hname
      · exact Or.inl h
      · right
        show (Function.update c.completed r.stage (some r) name).isSome = true
        rw [Function.update_of_ne hname]
        exact h

/-! ## Whose results they are -/

/-- The result is what a stage of these returns in this context, or the record that it was
skipped. -/
def Own (stages : List (PipelineStage Job Data)) (c : Context Job Data) (r : StageResult Data) :
    Prop :=
  ∃ s ∈ stages, r.stage = s.name ∧ (s.required = true → r = s.run c)

theorem Own.mono {stages stages' : List (PipelineStage Job Data)} {r : StageResult Data}
    (h : Own stages c r) (hsub : stages ⊆ stages') : Own stages' c r := by
  obtain ⟨s, hs, h⟩ := h
  exact ⟨s, hsub hs, h⟩

/-- Only an optional stage is recorded as skipped. -/
theorem giveUp_required (e : PipelineError) : giveUp true e = .raised e := rfl

theorem settle_required (fs : ℕ → Option PipelineError) (left k : ℕ) (e : PipelineError) :
    (settle true fs left k).1 ≠ .skipped e := by
  induction left generalizing k with
  | zero =>
    unfold settle
    split
    · simp
    next e' _ => cases e'.retry <;> simp [giveUp_required]
  | succ left ih =>
    unfold settle
    split
    · simp
    next e' _ =>
      cases e'.retry
      · exact ih (k + 1)
      · simp [giveUp_required]

theorem verdict_required {s : PipelineStage Job Data} (hrequired : s.required = true)
    (e : PipelineError) : (alone fails s).1 ≠ .skipped e ∧ (inGroup fails s).1 ≠ .skipped e := by
  unfold alone inGroup
  rw [hrequired]
  refine ⟨settle_required _ _ _ e, ?_⟩
  split
  · simp
  next e' _ =>
    cases e'.retry
    · exact settle_required _ _ _ e
    · simp [giveUp_required]

theorem own_of_result {v : Verdict} {s : PipelineStage Job Data} {r : StageResult Data}
    (hv : s.required = true → ∀ e, v ≠ .skipped e) (h : v.result s c = .ok r) : Own [s] c r := by
  refine ⟨s, List.mem_singleton_self s, stage_of_result h, fun hrequired => ?_⟩
  cases v with
  | succeeded => exact (Except.ok.inj h).symm
  | skipped e => exact absurd rfl (hv hrequired e)
  | raised e => cases h

theorem runMembers_own {members : List (PipelineStage Job Data)} {results : List (StageResult Data)}
    (h : (runMembers fails c members).1 = .ok results) : ∀ r ∈ results, Own members c r := by
  induction members generalizing results with
  | nil =>
    obtain rfl : [] = results := Except.ok.inj h
    exact fun r hr => by cases hr
  | cons s members ih =>
    unfold runMembers at h
    dsimp only at h
    split at h
    · cases h
    next r hr =>
      cases hrest : (runMembers fails c members).1 with
      | error e =>
        rw [hrest] at h
        cases h
      | ok rest =>
        rw [hrest] at h
        obtain rfl : r :: rest = results := Except.ok.inj h
        intro r' hr'
        rcases List.mem_cons.mp hr' with rfl | hr'
        · have hown := own_of_result (fun hrequired e => (verdict_required hrequired e).2) hr
          exact hown.mono (by simp)
        · exact (ih hrest r' hr').mono (List.subset_cons_self _ _)

/-- The results of an entry are those of its members. -/
theorem runEntry_own {entry : Entry Job Data} {results : List (StageResult Data)}
    (h : (runEntry fails c entry).1 = .ok results) : ∀ r ∈ results, Own entry.members c r := by
  cases entry with
  | stage s =>
    unfold runEntry at h
    dsimp only at h
    cases hr : (alone fails s).1.result s c with
    | error e =>
      rw [hr] at h
      cases h
    | ok r =>
      rw [hr] at h
      obtain rfl : [r] = results := Except.ok.inj h
      intro r' hr'
      obtain rfl := List.mem_singleton.mp hr'
      exact own_of_result (fun hrequired e => (verdict_required hrequired e).1) hr
  | group members => exact runMembers_own h

theorem withResults_completed (c : Context Job Data) (results : List (StageResult Data)) :
    (c.withResults results).completed = record c.completed results := by
  induction results generalizing c with
  | nil => rfl
  | cons r results ih => exact ih _

theorem record_cases {done : Completed Data} {results : List (StageResult Data)} {name : String}
    {r : StageResult Data} (h : record done results name = some r) :
    (r ∈ results ∧ r.stage = name) ∨ (name ∉ results.map StageResult.stage ∧ done name = some r) := by
  induction results generalizing done with
  | nil => exact Or.inr ⟨by simp, h⟩
  | cons r' results ih =>
    rcases ih h with ⟨hr, hstage⟩ | ⟨hlater, hdone⟩
    · exact Or.inl ⟨List.mem_cons_of_mem _ hr, hstage⟩
    · change Function.update done r'.stage (some r') name = some r at hdone
      by_cases hname : name = r'.stage
      · subst hname
        rw [Function.update_self] at hdone
        cases hdone
        exact Or.inl ⟨List.mem_cons_self, rfl⟩
      · rw [Function.update_of_ne hname] at hdone
        exact Or.inr ⟨by simpa [hname] using hlater, hdone⟩

theorem record_of_notMem {done : Completed Data} {results : List (StageResult Data)} {name : String}
    (h : name ∉ results.map StageResult.stage) : record done results name = done name := by
  induction results generalizing done with
  | nil => rfl
  | cons r results ih =>
    rw [List.map_cons, List.mem_cons, not_or] at h
    exact (ih h.2).trans (Function.update_of_ne h.1 _ _)

section Coherent

variable (reads : String → List String) (stages : List (PipelineStage Job Data))

/-- All that the context holds is recorded. -/
def Within (c : Context Job Data) (done : Completed Data) : Prop :=
  ∀ n, (c.completed n).isSome = true → done n = c.completed n

/-- The result is what a stage of these returns in a context of what is recorded, with all that
it reads. -/
def Fresh (done : Completed Data) (r : StageResult Data) : Prop :=
  ∃ s ∈ stages, r.stage = s.name ∧ (s.required = true → ∃ c : Context Job Data, r = s.run c ∧
    (∀ n ∈ reads s.name, (c.completed n).isSome = true) ∧ Within c done)

/-- **Every recorded result was computed from the recorded results it reads.** -/
def Coherent (done : Completed Data) : Prop :=
  ∀ name r, done name = some r → r.stage = name ∧ Fresh reads stages done r

variable {reads stages} {done : Completed Data} {results : List (StageResult Data)}

/-- Results under new names leave what a stage has read as it was. -/
theorem Fresh.record {r : StageResult Data} (h : Fresh reads stages done r)
    (hnew : ∀ name ∈ results.map StageResult.stage, done name = none) :
    Fresh reads stages (record done results) r := by
  obtain ⟨s, hs, hstage, hrun⟩ := h
  refine ⟨s, hs, hstage, fun hrequired => ?_⟩
  obtain ⟨c, hr, hread, hwithin⟩ := hrun hrequired
  refine ⟨c, hr, hread, fun n hn => ?_⟩
  have hother : n ∉ results.map StageResult.stage := by
    intro hmem
    rw [← hwithin n hn, hnew n hmem] at hn
    cases hn
  rw [record_of_notMem hother]
  exact hwithin n hn

theorem Coherent.record (h : Coherent reads stages done)
    (hresults : ∀ r ∈ results, Fresh reads stages done r)
    (hnew : ∀ name ∈ results.map StageResult.stage, done name = none) :
    Coherent reads stages (record done results) := by
  intro name r hr
  rcases record_cases hr with ⟨hmem, hstage⟩ | ⟨-, hdone⟩
  · exact ⟨hstage, (hresults r hmem).record hnew⟩
  · obtain ⟨hstage, hfresh⟩ := h name r hdone
    exact ⟨hstage, hfresh.record hnew⟩

/-- What the stages of these entries read is there, or comes before. -/
def Available (reads : String → List String) (done : Completed Data)
    (entries : List (Entry Job Data)) : Prop :=
  ∀ before entry after, entries = before ++ entry :: after →
    ∀ s ∈ entry.members, ∀ n ∈ reads s.name, (done n).isSome = true ∨ n ∈ names before

/-- The results of the first entry are there for the others. -/
theorem Available.withResults {entry : Entry Job Data}
    (h : Available reads c.completed (entry :: entries))
    (hresults : results.map StageResult.stage = entry.members.map PipelineStage.name) :
    Available reads (c.withResults results).completed entries := by
  intro before entry' after hsplit s hs n hn
  rcases h (entry :: before) entry' after (by rw [hsplit]; rfl) s hs n hn with hdone | hbefore
  · exact Or.inl (withResults_completed_isSome (Or.inr hdone))
  · rw [names_cons, ← hresults] at hbefore
    exact (List.mem_append.mp hbefore).imp_left fun hnew =>
      withResults_completed_isSome (Or.inl hnew)

/-- The results of an entry are made of what is recorded when it starts. -/
theorem fresh_of_runEntry {entry : Entry Job Data} (hok : (runEntry fails c entry).1 = .ok results)
    (hstages : entry.members ⊆ stages)
    (hfound : ∀ s ∈ entry.members, ∀ n ∈ reads s.name, (c.completed n).isSome = true) :
    ∀ r ∈ results, Fresh reads stages c.completed r := by
  intro r hr
  obtain ⟨s, hs, hstage, hrun⟩ := runEntry_own hok r hr
  exact ⟨s, hstages hs, hstage, fun hrequired =>
    ⟨c, hrun hrequired, hfound s hs, fun _ _ => rfl⟩⟩

/-- What a context offers the members of an entry that is started with it, in a run whose first
context is `start`. -/
structure Ready (reads : String → List String) (stages : List (PipelineStage Job Data))
    (start : Completed Data) (entry : Entry Job Data) (c : Context Job Data) : Prop where
  coherent : Coherent reads stages c.completed
  found : ∀ s ∈ entry.members, ∀ n ∈ reads s.name, (c.completed n).isSome = true
  kept : ∀ n, (start n).isSome = true → c.completed n = start n

/-- **A run keeps the record coherent**, in every context it starts an entry with and after each
of its saves, and no stage misses what it reads. -/
theorem run_coherent (hstages : flatten entries ⊆ stages) (hnames : (names entries).Nodup)
    (hnew : ∀ name ∈ names entries, c.completed name = none)
    (havailable : Available reads c.completed entries) (hc : Coherent reads stages c.completed)
    (turn position : ℕ) :
    (∀ p ∈ started fails stops entries turn c, Ready reads stages c.completed p.1 p.2) ∧
      ∀ saved, saved <+: (runEntries plan fails stops entries turn position c).saved →
        Coherent reads stages (record c.completed (saved.map Progress.result)) := by
  induction entries generalizing turn position c with
  | nil =>
    refine ⟨fun p hp => (by cases hp), fun saved hsaved => ?_⟩
    rw [List.prefix_nil.mp hsaved]
    exact hc
  | cons entry entries ih =>
    have hflat : flatten (entry :: entries) = entry.members ++ flatten entries := List.flatMap_cons
    rw [hflat] at hstages
    rw [names_cons, List.nodup_append] at hnames
    rw [names_cons] at hnew
    unfold started runEntries
    by_cases hstop : stops turn = true
    · rw [if_pos hstop, if_pos hstop]
      refine ⟨fun p hp => (by cases hp), fun saved hsaved => ?_⟩
      rw [List.prefix_nil.mp hsaved]
      exact hc
    · rw [if_neg hstop, if_neg hstop]
      have hfound : ∀ s ∈ entry.members, ∀ n ∈ reads s.name, (c.completed n).isSome = true :=
        fun s hs n hn => (havailable [] entry entries rfl s hs n hn).resolve_right
          (by simp [names, flatten])
      rcases hrun : runEntry fails c entry with ⟨e | results, executed⟩
      · refine ⟨fun p hp => ?_, fun saved hsaved => ?_⟩
        · obtain rfl := List.mem_singleton.mp hp
          exact ⟨hc, hfound, fun _ _ => rfl⟩
        · rw [List.prefix_nil.mp hsaved]
          exact hc
      · have hok : (runEntry fails c entry).1 = .ok results := by rw [hrun]
        have hresultNames := stages_of_runEntry hok
        have hnewResults : ∀ name ∈ results.map StageResult.stage, c.completed name = none := by
          rw [hresultNames]
          exact fun name hname => hnew name (List.mem_append_left _ hname)
        have hfresh : ∀ r ∈ results, Fresh reads stages c.completed r :=
          fresh_of_runEntry hok (fun s hs => hstages (List.mem_append_left _ hs)) hfound
        -- the rest starts from these results
        have hcompleted := withResults_completed c results
        have hnext : Coherent reads stages (c.withResults results).completed := by
          rw [hcompleted]
          exact hc.record hfresh hnewResults
        have hnewNext : ∀ name ∈ names entries, (c.withResults results).completed name = none := by
          intro name hname
          rw [hcompleted, record_of_notMem]
          · exact hnew name (List.mem_append_right _ hname)
          · rw [hresultNames]
            exact fun hmem => hnames.2.2 name hmem name hname rfl
        have havailableNext := havailable.withResults hresultNames
        obtain ⟨hstarted, hsaves⟩ := ih (fun s hs => hstages (List.mem_append_right _ hs)) hnames.2.1
          hnewNext havailableNext hnext (turn + 1) (position + results.length)
        refine ⟨fun p hp => ?_, fun saved hsaved => ?_⟩
        · rcases List.mem_cons.mp hp with rfl | hp
          · exact ⟨hc, hfound, fun _ _ => rfl⟩
          · obtain ⟨hcoherent, hfoundNext, hkept⟩ := hstarted p hp
            refine ⟨hcoherent, hfoundNext, fun n hn => ?_⟩
            rw [hkept n (withResults_completed_isSome (Or.inr hn)), hcompleted]
            apply record_of_notMem
            intro hmem
            rw [hnewResults n hmem] at hn
            cases hn
        · obtain ⟨t, ht⟩ := hsaved
          rcases List.append_eq_append_iff.mp ht with ⟨cut, hfirst, -⟩ | ⟨later, rfl, hlater⟩
          · -- cut off among the saves of this entry
            have hsub : saved.map Progress.result ⊆ results := by
              rw [← saves_map_result plan position results, hfirst, List.map_append]
              exact List.subset_append_left _ _
            exact hc.record (fun r hr => hfresh r (hsub hr)) fun name hname =>
              hnewResults name (List.map_subset _ hsub hname)
          · rw [List.map_append, saves_map_result, record_append, ← hcompleted]
            exact hsaves later ⟨t, hlater.symm⟩

end Coherent

/-! ## What a stage reads -/

/-- The entries that `run` starts. -/
def executions (entries : List (Entry Job Data)) (initial : Context Job Data)
    (alreadyDone : Completed Data) (fails : Failures) (stops : ℕ → Bool) (mode : Option Mode) :
    List (Entry Job Data × Context Job Data) :=
  started fails stops (remainingEntries (stagesForMode entries mode) alreadyDone) 0
    (startContext initial alreadyDone)

theorem run_executed (initial : Context Job Data) (mode : Option Mode) :
    (run entries initial alreadyDone fails stops mode).executed =
      (executions entries initial alreadyDone fails stops mode).flatMap fun p =>
        (runEntry fails p.2 p.1).2 :=
  executed_eq_started 0 0 _

/-- What a stage reads comes before it. -/
def ReadsBefore (reads : String → List String) (entries : List (Entry Job Data)) : Prop :=
  ∀ before entry after, entries = before ++ entry :: after →
    ∀ s ∈ entry.members, ∀ name ∈ reads s.name, name ∈ names before

/-- What is left to do finds what it reads among what was done. -/
theorem ReadsBefore.available {reads : String → List String} (h : ReadsBefore reads entries)
    (done : Completed Data) : Available reads done (remainingEntries entries done) := by
  intro before entry after hsplit s hs n hn
  obtain ⟨xs, ys, rfl, hbefore, hys⟩ := List.filterMap_eq_append_iff.mp hsplit
  obtain ⟨skipped, whole, rest, rfl, hskipped, hwhole, -⟩ := List.filterMap_eq_cons_iff.mp hys
  obtain ⟨t, ht, rfl⟩ := List.mem_map.mp
    (h (xs ++ skipped) whole rest (by simp) s (mem_of_restrict hwhole hs) n hn)
  by_cases hdone : (done t.name).isSome = true
  · exact Or.inl hdone
  · right
    have hremaining : remainingEntries (xs ++ skipped) done = before := by
      rw [remainingEntries, List.filterMap_append, hbefore, List.filterMap_eq_nil_iff.mpr hskipped,
        List.append_nil]
    have hkept : t ∈ flatten (remainingEntries (xs ++ skipped) done) := by
      rw [remainingEntries, flatten_restrict]
      exact List.mem_filter.mpr ⟨ht, by simpa using hdone⟩
    rw [hremaining] at hkept
    exact List.mem_map_of_mem hkept

section Resumed

variable {reads : String → List String} {initial : Context Job Data} {mode : Option Mode}
variable (hnames : ((flatten entries).map PipelineStage.name).Nodup)
variable (hreads : ReadsBefore reads (stagesForMode entries mode))
variable (hinitial : initial.completed = fun _ => none)

include hnames hreads hinitial

theorem run_ready (hdone : Coherent reads (flatten (stagesForMode entries mode)) alreadyDone) :
    (∀ p ∈ executions entries initial alreadyDone fails stops mode,
      Ready reads (flatten (stagesForMode entries mode)) alreadyDone p.1 p.2) ∧
      ∀ saved, saved <+: (run entries initial alreadyDone fails stops mode).saved →
        Coherent reads (flatten (stagesForMode entries mode))
          (record alreadyDone (saved.map Progress.result)) := by
  have hstart : (startContext initial alreadyDone).completed = alreadyDone := by
    funext name
    simp [startContext, hinitial]
  have hsub : flatten (remainingEntries (stagesForMode entries mode) alreadyDone) ⊆
      flatten (stagesForMode entries mode) := by
    rw [remainingEntries, flatten_restrict]
    exact fun s hs => List.mem_of_mem_filter hs
  have hnew : ∀ name ∈ names (remainingEntries (stagesForMode entries mode) alreadyDone),
      (startContext initial alreadyDone).completed name = none := by
    intro name hname
    rw [names, names_remaining] at hname
    rw [hstart]
    simpa using (List.mem_filter.mp hname).2
  have hrun : (∀ p ∈ executions entries initial alreadyDone fails stops mode,
      Ready reads (flatten (stagesForMode entries mode)) (startContext initial alreadyDone).completed
        p.1 p.2) ∧
      ∀ saved, saved <+: (run entries initial alreadyDone fails stops mode).saved →
        Coherent reads (flatten (stagesForMode entries mode))
          (record (startContext initial alreadyDone).completed (saved.map Progress.result)) :=
    run_coherent hsub (nodup_remainingEntries hnames alreadyDone mode) hnew
      (by rw [hstart]; exact hreads.available _) (by rw [hstart]; exact hdone) 0 0
  rw [hstart] at hrun
  exact hrun

/-- **What earlier runs have saved is coherent.** -/
theorem Saved.coherent {met : Failures} (h : Saved entries initial mode alreadyDone met) :
    Coherent reads (flatten (stagesForMode entries mode)) alreadyDone := by
  induction h with
  | nothing => exact fun name r hr => by cases hr
  | run h fails stops saved hcut ih => exact (run_ready hnames hreads hinitial ih).2 saved hcut

end Resumed

/-! ## The pipelines -/

section Pipelines

variable (work : String → Context Job Data → ℕ × Option Data)

/-- A stage of the worker, by its name; `work` is what the stages do. -/
def stageNamed (name : String) (modes : List Mode := [.clean, .mixed]) (required : Bool := true) :
    PipelineStage Job Data :=
  { name, required, modes, produce := work name }

/-- The aspect stages that `build_stages` lists. -/
def aspectStages : List (PipelineStage Job Data) :=
  [stageNamed work "rhythm", stageNamed work "vibrato", stageNamed work "dynamics",
    stageNamed work "timbre" [.clean], stageNamed work "breath" [.clean]]

/-- `build_stages`.  `parallel` is `pipeline_parallel_aspects`. -/
def buildStages (parallel : Bool) : List (Entry Job Data) :=
  [.stage (stageNamed work "preprocess"), .stage (stageNamed work "separate_recording" [.mixed]),
    .stage (stageNamed work "features"), .stage (stageNamed work "align"),
    .stage (stageNamed work "pitch"), .stage (stageNamed work "key_normalization")] ++
  (if parallel then [.group (aspectStages work)] else (aspectStages work).map .stage) ++
  [.stage (stageNamed work "recording_condition"), .stage (stageNamed work "aggregate")]

/-- `build_prep_stages`. -/
def buildPrepStages : List (Entry Job Data) :=
  [.stage (stageNamed work "prep_reference"), .stage (stageNamed work "separate_reference"),
    .stage (stageNamed work "transcribe" [.clean, .mixed] false),
    .stage (stageNamed work "prep_reference_pitch")]

/-- The stage whose output is the user's voice. -/
def voiceStage : Mode → String
  | .clean => "preprocess"
  | .mixed => "separate_recording"

/-- The results that the `run` of a stage looks up. -/
def reads (mode : Mode) (stage : String) : List String :=
  if stage = "separate_recording" then ["preprocess"]
  else if stage = "features" then [voiceStage mode]
  else if stage = "align" then ["preprocess", "features", voiceStage mode]
  else if stage = "pitch" then ["align"]
  else if stage = "key_normalization" then ["pitch"]
  else if stage = "rhythm" then ["features", "align"]
  else if stage = "vibrato" then ["pitch"]
  else if stage = "dynamics" then ["features", "align"]
  else if stage = "timbre" then ["features", "align"]
  else if stage = "breath" then ["features", "align"]
  else if stage = "recording_condition" then ["preprocess", "pitch"]
  else if stage = "aggregate" then
    Completion.modeAspects mode ++ ["key_normalization", "recording_condition", "pitch", "align"]
  else []

/-- The results that the `run` of a stage of the cold path looks up. -/
def prepReads (stage : String) : List String :=
  if stage = "separate_reference" then ["prep_reference"]
  else if stage = "transcribe" then ["separate_reference"]
  else []

end Pipelines

/-- `ReadsBefore`, of the names of the stages of each entry. -/
def readsAfter (reads : String → List String) : List String → List (List String) → Bool
  | _, [] => true
  | done, members :: rest =>
      (members.all fun s => (reads s).all fun name => name ∈ done) &&
        readsAfter reads (done ++ members) rest

theorem mem_names_of_readsAfter {reads : String → List String} {done : List String}
    (h : readsAfter reads done
      (entries.map fun entry => entry.members.map PipelineStage.name) = true)
    {before after : List (Entry Job Data)} {entry : Entry Job Data}
    (hsplit : entries = before ++ entry :: after) {s : PipelineStage Job Data}
    (hs : s ∈ entry.members) {name : String} (hname : name ∈ reads s.name) :
    name ∈ done ++ names before := by
  induction before generalizing done entries with
  | nil =>
    subst hsplit
    rw [List.nil_append, List.map_cons, readsAfter, Bool.and_eq_true, List.all_eq_true] at h
    have hall := List.all_eq_true.mp (h.1 s.name (List.mem_map_of_mem hs)) name hname
    exact List.mem_append_left _ (by simpa using hall)
  | cons first before ih =>
    subst hsplit
    rw [List.cons_append, List.map_cons, readsAfter, Bool.and_eq_true] at h
    rw [names_cons, ← List.append_assoc]
    exact ih h.2 rfl

theorem readsBefore_of_readsAfter {reads : String → List String}
    (h : readsAfter reads [] (entries.map fun entry => entry.members.map PipelineStage.name) = true) :
    ReadsBefore reads entries :=
  fun _ _ _ hsplit _ hs _ hname => mem_names_of_readsAfter h hsplit hs hname

section Order

variable (work : String → Context Job Data → ℕ × Option Data)

theorem nodup_buildStages (parallel : Bool) :
    ((flatten (buildStages work parallel)).map PipelineStage.name).Nodup := by
  have hlisted : (flatten (buildStages work parallel)).map PipelineStage.name =
      ["preprocess", "separate_recording", "features", "align", "pitch", "key_normalization",
        "rhythm", "vibrato", "dynamics", "timbre", "breath", "recording_condition",
        "aggregate"] := by
    cases parallel <;> rfl
  rw [hlisted]
  decide

theorem nodup_buildPrepStages :
    ((flatten (buildPrepStages work)).map PipelineStage.name).Nodup := by
  show ["prep_reference", "separate_reference", "transcribe", "prep_reference_pitch"].Nodup
  decide

/-- The names of each entry do not depend on what the stages do. -/
theorem names_buildStages (parallel : Bool) (mode : Mode) :
    ((stagesForMode (buildStages work parallel) (some mode)).map fun entry =>
      entry.members.map PipelineStage.name) =
    (stagesForMode (buildStages (fun _ _ => (0, none) : String → Context Unit Unit → _) parallel)
      (some mode)).map fun entry => entry.members.map PipelineStage.name := by
  cases parallel <;> cases mode <;> rfl

theorem buildStages_readsBefore (parallel : Bool) (mode : Mode) :
    ReadsBefore (reads mode) (stagesForMode (buildStages work parallel) (some mode)) := by
  apply readsBefore_of_readsAfter
  rw [names_buildStages]
  cases parallel <;> cases mode <;> decide +kernel

theorem buildPrepStages_readsBefore :
    ReadsBefore prepReads (stagesForMode (buildPrepStages work) none) := by
  apply readsBefore_of_readsAfter
  show readsAfter prepReads [] [["prep_reference"], ["separate_reference"], ["transcribe"],
    ["prep_reference_pitch"]] = true
  decide

/-- A stage of the warm path is required, and is the one of its name. -/
theorem run_stageNamed {parallel : Bool} {mode : Option Mode} {t : PipelineStage Job Data}
    (ht : t ∈ flatten (stagesForMode (buildStages work parallel) mode)) :
    t.required = true ∧ ∀ c, t.run c = (stageNamed work t.name).run c := by
  have hsub : flatten (stagesForMode (buildStages work parallel) mode) ⊆
      flatten (buildStages work parallel) := by
    cases mode with
    | none => exact List.Subset.refl _
    | some mode =>
      rw [stagesForMode, flatten_restrict]
      exact fun s hs => List.mem_of_mem_filter hs
  have hall : ∀ s ∈ flatten (buildStages work parallel), s.required = true ∧
      s.produce = work s.name := by
    cases parallel <;> simp [buildStages, aspectStages, flatten, Entry.members, stageNamed]
  obtain ⟨hrequired, hproduce⟩ := hall t (hsub ht)
  exact ⟨hrequired, fun c => by simp only [PipelineStage.run, hproduce, stageNamed]⟩

variable {initial : Context Job Data} {met : Failures} {parallel : Bool} {mode : Mode}

/-- What a context of the warm path holds under a name. -/
theorem completed_stageNamed {done : Completed Data}
    (h : Coherent (reads mode) (flatten (stagesForMode (buildStages work parallel) (some mode))) done)
    {name : String} (hname : (done name).isSome = true) :
    ∃ c : Context Job Data, done name = some ((stageNamed work name).run c) ∧
      (∀ n ∈ reads mode name, (c.completed n).isSome = true) ∧ Within c done := by
  obtain ⟨r, hr⟩ := Option.isSome_iff_exists.mp hname
  obtain ⟨hr', s, hs, hstage, hrun⟩ := h name r hr
  obtain rfl : s.name = name := hstage.symm.trans hr'
  obtain ⟨hrequired, hnamed⟩ := run_stageNamed work hs
  obtain ⟨c, rfl, hread, hwithin⟩ := hrun hrequired
  exact ⟨c, by rw [hr, hnamed], hread, hwithin⟩

/-- **No stage of the warm path misses a result it reads**, however the job was interrupted and
resumed.  What the run executes are the executions looked at; the result is there, it is the one
saved if one was saved, and the stage it reads has computed it from the very results that are
there. -/
theorem stages_find_reads (hinitial : initial.completed = fun _ => none)
    (hsaved : Saved (buildStages work parallel) initial (some mode) alreadyDone met) :
    ((run (buildStages work parallel) initial alreadyDone fails stops (some mode)).executed =
      (executions (buildStages work parallel) initial alreadyDone fails stops (some mode)).flatMap
        fun p => (runEntry fails p.2 p.1).2) ∧
    ∀ p ∈ executions (buildStages work parallel) initial alreadyDone fails stops (some mode),
      ∀ s ∈ p.1.members, ∀ name ∈ reads mode s.name,
        (∃ c : Context Job Data, p.2.completed name = some ((stageNamed work name).run c) ∧
          ∀ n ∈ reads mode name, (c.completed n).isSome = true ∧
            c.completed n = p.2.completed n) ∧
          ∀ r, alreadyDone name = some r → p.2.completed name = some r := by
  refine ⟨run_executed initial (some mode), ?_⟩
  intro p hp s hs name hname
  have hnames := nodup_buildStages work parallel
  have hreads := buildStages_readsBefore work parallel mode
  obtain ⟨hcoherent, hfound, hkept⟩ :=
    (run_ready hnames hreads hinitial (hsaved.coherent hnames hreads hinitial)).1 p hp
  obtain ⟨c, hcompleted, hread, hwithin⟩ :=
    completed_stageNamed work hcoherent (hfound s hs name hname)
  refine ⟨⟨c, hcompleted, fun n hn => ⟨hread n hn, (hwithin n (hread n hn)).symm⟩⟩, ?_⟩
  intro r hr
  rw [hkept name (by rw [hr]; rfl), hr]

/-! ## The voice -/

/-- `voice_audio_path`. -/
def voiceAudioPath (stemPath recordingPath : Data → Option String) (c : Context Job Data) :
    Option String :=
  match c.completed "separate_recording" with
  | some separated => separated.data.bind stemPath
  | none => (c.completed "preprocess").bind fun r => r.data.bind recordingPath

/-- The path in the data of the voice stage. -/
def voicePath (stemPath recordingPath : Data → Option String) : Mode → Data → Option String
  | .clean => recordingPath
  | .mixed => stemPath

variable (stemPath recordingPath : Data → Option String)

/-- In a recording that is clean nothing is separated. -/
theorem separated_none {done : Completed Data}
    (h : Coherent (reads .clean) (flatten (stagesForMode (buildStages work parallel) (some .clean)))
      done) : done "separate_recording" = none := by
  rw [← Option.not_isSome_iff_eq_none]
  intro hsome
  obtain ⟨r, hr⟩ := Option.isSome_iff_exists.mp hsome
  obtain ⟨hr', s, hs, hstage, -⟩ := h _ r hr
  have hmem : "separate_recording" ∈
      (flatten (stagesForMode (buildStages work parallel) (some .clean))).map PipelineStage.name := by
    rw [← hr', hstage]
    exact List.mem_map_of_mem hs
  have hlisted : (flatten (stagesForMode (buildStages work parallel) (some .clean))).map
      PipelineStage.name = ["preprocess", "features", "align", "pitch", "key_normalization",
        "rhythm", "vibrato", "dynamics", "timbre", "breath", "recording_condition",
        "aggregate"] := by
    cases parallel <;> rfl
  rw [hlisted] at hmem
  exact absurd hmem (by decide)

/-- The voice is the output of the voice stage, wherever that is recorded. -/
theorem voiceAudioPath_of_within {c d : Context Job Data}
    (h : Coherent (reads mode) (flatten (stagesForMode (buildStages work parallel) (some mode)))
      d.completed) (hwithin : Within c d.completed)
    (hvoice : (c.completed (voiceStage mode)).isSome = true) :
    voiceAudioPath stemPath recordingPath c =
      (d.completed (voiceStage mode)).bind fun r => r.data.bind
        (voicePath stemPath recordingPath mode) := by
  have hsame := hwithin _ hvoice
  obtain ⟨r, hr⟩ := Option.isSome_iff_exists.mp hvoice
  unfold voiceAudioPath
  cases mode with
  | clean =>
    have hnone : c.completed "separate_recording" = none := by
      rw [← Option.not_isSome_iff_eq_none]
      intro hsome
      rw [← hwithin _ hsome, separated_none work h] at hsome
      cases hsome
    rw [hnone, hsame]
    rfl
  | mixed =>
    rw [hsame, hr]
    change c.completed "separate_recording" = some r at hr
    rw [hr]
    rfl

/-- **The shared features and the alignment hear the same voice**, however the job was
interrupted between them: with accompaniment both read the separated stem, and without both
read the recording. -/
theorem features_align_sameVoice (hinitial : initial.completed = fun _ => none)
    (hsaved : Saved (buildStages work parallel) initial (some mode) alreadyDone met) :
    ∀ p ∈ executions (buildStages work parallel) initial alreadyDone fails stops (some mode),
      ∀ s ∈ p.1.members, s.name = "align" → ∃ (c : Context Job Data) (r : StageResult Data),
        p.2.completed "features" = some ((stageNamed work "features").run c) ∧
        p.2.completed (voiceStage mode) = some r ∧
        voiceAudioPath stemPath recordingPath c =
          r.data.bind (voicePath stemPath recordingPath mode) ∧
        voiceAudioPath stemPath recordingPath p.2 =
          r.data.bind (voicePath stemPath recordingPath mode) := by
  intro p hp s hs hname
  have hnames := nodup_buildStages work parallel
  have hreads := buildStages_readsBefore work parallel mode
  obtain ⟨hcoherent, hfound, -⟩ :=
    (run_ready hnames hreads hinitial (hsaved.coherent hnames hreads hinitial)).1 p hp
  have hvoice : (p.2.completed (voiceStage mode)).isSome = true :=
    hfound s hs _ (by rw [hname]; cases mode <;> decide)
  have hfeatures : (p.2.completed "features").isSome = true :=
    hfound s hs _ (by rw [hname]; cases mode <;> decide)
  obtain ⟨c, hc, hread, hwithin⟩ := completed_stageNamed work hcoherent hfeatures
  obtain ⟨r, hr⟩ := Option.isSome_iff_exists.mp hvoice
  have hheard := voiceAudioPath_of_within work stemPath recordingPath hcoherent hwithin
    (hread _ (by cases mode <;> decide))
  have hhears := voiceAudioPath_of_within work stemPath recordingPath hcoherent (fun _ _ => rfl) hvoice
  rw [hr] at hheard hhears
  exact ⟨c, r, hc, hr, hheard, hhears⟩

/-- No stage of the cold path misses a result it reads. -/
theorem prepStages_find_reads (hinitial : initial.completed = fun _ => none)
    (hsaved : Saved (buildPrepStages work) initial none alreadyDone met) :
    ∀ p ∈ executions (buildPrepStages work) initial alreadyDone fails stops none,
      ∀ s ∈ p.1.members, ∀ name ∈ prepReads s.name, (p.2.completed name).isSome = true :=
  have hnames := nodup_buildPrepStages work
  have hreads := buildPrepStages_readsBefore work
  fun p hp => ((run_ready hnames hreads hinitial (hsaved.coherent hnames hreads hinitial)).1 p hp).found

end Order

/-- A stage that counts which results it finds. -/
def countReads (mode : Mode) (name : String) (c : Context Unit ℕ) : ℕ × Option ℕ :=
  (1, some (((reads mode name).filter fun n => (c.completed n).isSome).length))

/-- Cut off before the alignment. -/
def cutBeforeAlign : List (Progress ℕ) :=
  (run (buildStages (countReads .mixed) true) freshContext (fun _ => none) (fun _ _ => none)
    (fun _ => false) (some .mixed)).saved.take 3

theorem saved_cutBeforeAlign : Saved (buildStages (countReads .mixed) true) freshContext (some .mixed)
    (record (fun _ => none) (cutBeforeAlign.map Progress.result))
    (meetsAt (fun _ _ => none) (fun _ _ => none) (cutBeforeAlign.map fun p => p.result.stage)) :=
  Saved.run .nothing (fun _ _ => none) (fun _ => false) cutBeforeAlign (List.take_prefix _ _)

/-- What the next run starts first. -/
def resumedAt : Entry Unit ℕ × Context Unit ℕ :=
  (executions (buildStages (countReads .mixed) true) freshContext
    (record (fun _ => none) (cutBeforeAlign.map Progress.result)) (fun _ _ => none) (fun _ => false)
    (some .mixed)).head (by decide +kernel)

theorem mem_resumedAt : stageNamed (countReads .mixed) "align" ∈ resumedAt.1.members := by
  have hentry : resumedAt.1 = .stage (stageNamed (countReads .mixed) "align") := by rfl
  rw [hentry]
  exact List.mem_singleton_self _

theorem stages_find_reads_cutBeforeAlign :
    (∃ c : Context Unit ℕ,
      resumedAt.2.completed "features" = some ((stageNamed (countReads .mixed) "features").run c) ∧
      ∀ n ∈ reads .mixed "features", (c.completed n).isSome = true ∧
        c.completed n = resumedAt.2.completed n) ∧
    ∀ r, record (fun _ => none) (cutBeforeAlign.map Progress.result) "features" = some r →
      resumedAt.2.completed "features" = some r :=
  (stages_find_reads (countReads .mixed) rfl saved_cutBeforeAlign).2 resumedAt (List.head_mem _) _
    mem_resumedAt "features" (by decide)

theorem features_align_sameVoice_cutBeforeAlign :
    ∃ (c : Context Unit ℕ) (r : StageResult ℕ),
      resumedAt.2.completed "features" = some ((stageNamed (countReads .mixed) "features").run c) ∧
      resumedAt.2.completed "separate_recording" = some r ∧
      voiceAudioPath (fun k => some k.repr) (fun _ => none) c =
        r.data.bind (voicePath (fun k => some k.repr) (fun _ => none) .mixed) ∧
      voiceAudioPath (fun k => some k.repr) (fun _ => none) resumedAt.2 =
        r.data.bind (voicePath (fun k => some k.repr) (fun _ => none) .mixed) :=
  features_align_sameVoice (countReads .mixed) (fun k => some k.repr) (fun _ => none) rfl
    saved_cutBeforeAlign resumedAt (List.head_mem _) _ mem_resumedAt rfl

end VocalCoach.Pipeline
