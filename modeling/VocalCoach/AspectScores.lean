/-
# One set of aspect scores

Three places read the aspect scores of an analysis: the aggregation sums them up, the report
prints them as whole numbers, `_persist_scores` copies them into their columns.  Only the first
takes the key-normalized pitch score instead of the measured one.

* `aggregate_of_saved`: however the runs of the pipeline were cut off, the saved result of
  `aggregate` is what the stage makes of the other saved results.
* `oneSetOfScores_iff`: the three agree, up to the rounding of the report, exactly when the
  substituted score, if there is one, is the measured one; and to the letter, exactly when the
  scores are whole numbers besides.
-/
import VocalCoach.Aggregation
import VocalCoach.Concluded
import VocalCoach.ParallelGroups
import Mathlib.Data.List.Forall2

namespace VocalCoach.Pipeline.Completion

open Interpolation

/-! ## Lists of results -/

theorem forall₂_of_mapM {α β : Type} {f : α → Option β} {l : List α} {r : List β}
    (h : l.mapM f = some r) : List.Forall₂ (fun a b => f a = some b) l r := by
  induction l generalizing r with
  | nil =>
    rw [List.mapM_nil] at h
    cases h
    exact .nil
  | cons a l ih =>
    rw [List.mapM_cons] at h
    cases ha : f a with
    | none =>
      rw [ha] at h
      cases h
    | some b =>
      cases hrest : l.mapM f with
      | none =>
        rw [ha, hrest] at h
        cases h
      | some rest =>
        rw [ha, hrest] at h
        cases h
        exact .cons ha (ih hrest)

/-- What each step keeps, all of them keep. -/
theorem map_eq_of_mapM {α β γ : Type} {f : α → Option β} {g : α → γ} {k : β → γ}
    (hk : ∀ a b, f a = some b → g a = k b) {l : List α} {r : List β} (h : l.mapM f = some r) :
    l.map g = r.map k := by
  have hforall := (forall₂_of_mapM h).imp hk
  rwa [← List.forall₂_map_right_iff, ← List.forall₂_map_left_iff, List.forall₂_eq_eq_eq] at hforall

/-- A map that undoes each step undoes them all. -/
theorem map_of_mapM {α β : Type} {f : α → Option β} {g : β → α}
    (hg : ∀ a b, f a = some b → a = g b) {l : List α} {r : List β} (h : l.mapM f = some r) :
    r.map g = l := by
  rw [← map_eq_of_mapM (g := id) hg h, List.map_id]

theorem mapM_congr {α β : Type} {f g : α → Option β} {l : List α} (h : ∀ a ∈ l, f a = g a) :
    l.mapM f = l.mapM g := by
  induction l with
  | nil => rfl
  | cons a l ih =>
    rw [List.mapM_cons, List.mapM_cons, h a List.mem_cons_self,
      ih fun b hb => h b (List.mem_cons_of_mem _ hb)]

theorem mem_of_mapM {α β : Type} {f : α → Option β} {l : List α} {r : List β}
    (h : l.mapM f = some r) : ∀ b ∈ r, ∃ a, f a = some b := by
  have hforall := forall₂_of_mapM h
  clear h
  induction hforall with
  | nil => simp
  | cons hab hrest ih =>
    intro b hb
    rcases List.mem_cons.mp hb with rfl | hb
    · exact ⟨_, hab⟩
    · exact ih b hb

/-- Going through a list for the first of the least. -/
theorem foldl_least (rest : List (String × ℚ)) (best : String × ℚ) :
    rest.foldl (fun best p => if p.2 < best.2 then p else best) best ∈ best :: rest ∧
      ∀ q ∈ best :: rest,
        (rest.foldl (fun best p => if p.2 < best.2 then p else best) best).2 ≤ q.2 := by
  induction rest generalizing best with
  | nil => simp
  | cons p rest ih =>
    rw [List.foldl_cons]
    split_ifs with hlt
    · obtain ⟨hmem, hle⟩ := ih p
      refine ⟨List.mem_cons_of_mem _ hmem, fun q hq => ?_⟩
      rcases List.mem_cons.mp hq with rfl | hq
      · exact (hle p List.mem_cons_self).trans hlt.le
      · exact hle q hq
    · obtain ⟨hmem, hle⟩ := ih best
      constructor
      · rcases List.mem_cons.mp hmem with heq | hmem
        · rw [heq]
          exact List.mem_cons_self
        · exact List.mem_cons_of_mem _ (List.mem_cons_of_mem _ hmem)
      · intro q hq
        rcases List.mem_cons.mp hq with rfl | hq
        · exact hle _ List.mem_cons_self
        rcases List.mem_cons.mp hq with rfl | hq
        · exact (hle best List.mem_cons_self).trans (not_lt.mp hlt)
        · exact hle q (List.mem_cons_of_mem _ hq)

/-! ## Scores -/

section Scores

variable {completed : Completed (Fields Datum)} {mode : Mode} {scores : List (String × ℚ)}

/-- The score of an aspect, as the report reads it. -/
def scoreOf (completed : Completed (Fields Datum)) (aspect : String) : Option ℚ :=
  (dataOf completed aspect).bind fun data => number data "score"

theorem aspectScores_eq (completed : Completed (Fields Datum)) (mode : Mode) :
    aspectScores completed mode =
      (modeAspects mode).mapM fun aspect => (scoreOf completed aspect).map fun x => (aspect, x) := by
  unfold aspectScores scoreOf
  congr 1
  funext aspect
  cases dataOf completed aspect with
  | none => rfl
  | some data => cases h : number data "score" <;> simp [h]

/-- **What the report reads**: one score for each aspect of the mode. -/
theorem aspectScores_spec (h : aspectScores completed mode = some scores) :
    scores.map Prod.fst = modeAspects mode ∧ ∀ p ∈ scores, scoreOf completed p.1 = some p.2 := by
  rw [aspectScores_eq] at h
  have hstep : ∀ aspect p, (scoreOf completed aspect).map (fun x => (aspect, x)) = some p →
      aspect = p.1 ∧ scoreOf completed aspect = some p.2 := by
    intro aspect p hp
    obtain ⟨x, hx, rfl⟩ := Option.map_eq_some_iff.mp hp
    exact ⟨rfl, hx⟩
  refine ⟨map_of_mapM (fun aspect p hp => (hstep aspect p hp).1) h, fun p hp => ?_⟩
  obtain ⟨aspect, haspect⟩ := mem_of_mapM h p hp
  obtain ⟨rfl, hscore⟩ := hstep aspect p haspect
  exact hscore

theorem mem_aspectScores (h : aspectScores completed mode = some scores) {aspect : String} {x : ℚ} :
    (aspect, x) ∈ scores ↔ aspect ∈ modeAspects mode ∧ scoreOf completed aspect = some x := by
  obtain ⟨hkeys, hscores⟩ := aspectScores_spec h
  rw [← hkeys]
  constructor
  · intro hmem
    exact ⟨List.mem_map_of_mem hmem, hscores _ hmem⟩
  · rintro ⟨haspect, hscore⟩
    obtain ⟨p, hp, rfl⟩ := List.mem_map.mp haspect
    have heq : p.2 = x := Option.some.inj ((hscores p hp).symm.trans hscore)
    rw [← heq]
    exact hp

/-- The first of the least is one of them and no greater than any. -/
theorem focusAspect_spec {p : String × ℚ} (h : focusAspect scores = some p) :
    p ∈ scores ∧ ∀ q ∈ scores, p.2 ≤ q.2 := by
  cases scores with
  | nil => cases h
  | cons first rest =>
    cases h
    exact foldl_least rest first

/-- **The report prints what it reads.** -/
theorem buildFeedbackReport_spec {overall : ℚ} {warning : Bool} {locale : String}
    {report : FeedbackReport}
    (h : buildFeedbackReport completed overall mode warning locale = some report) :
    ∃ scores, aspectScores completed mode = some scores ∧ report.overall = printWhole overall ∧
      report.paragraphs.map (fun p => (p.aspect, p.score)) =
        scores.map (fun p => (p.1, printWhole p.2)) ∧
      ∃ x, (report.focus, x) ∈ scores ∧ report.focusScore = printWhole x ∧ ∀ q ∈ scores, x ≤ q.2 := by
  unfold buildFeedbackReport at h
  cases hscores : aspectScores completed mode with
  | none =>
    rw [hscores] at h
    cases h
  | some scores =>
    cases hfocus : focusAspect scores with
    | none =>
      rw [hscores, Option.bind_eq_bind, Option.bind_some, hfocus] at h
      cases h
    | some focus =>
      rw [hscores, Option.bind_eq_bind, Option.bind_some, hfocus, Option.bind_eq_bind,
        Option.bind_some] at h
      obtain ⟨paragraphs, hparagraphs, hreport⟩ := Option.bind_eq_some_iff.mp h
      cases hreport
      obtain ⟨hmem, hle⟩ := focusAspect_spec hfocus
      refine ⟨scores, rfl, rfl, ?_, focus.2, hmem, rfl, hle⟩
      refine (map_eq_of_mapM (fun p paragraph hp => ?_) hparagraphs).symm
      obtain ⟨data, -, hbody⟩ := Option.bind_eq_some_iff.mp hp
      obtain ⟨body, -, hpure⟩ := Option.bind_eq_some_iff.mp hbody
      cases hpure
      rfl

/-- What the aggregation sums up and what it stores. -/
theorem aggregateRun_spec {settings : AggregateSettings} {c : Context (Job Datum) (Fields Datum)}
    {data : Fields Datum} (h : aggregateRun settings c = some data) :
    ∃ entered overall report warning, enteredScores c.completed c.job.mode = some entered ∧
      weightedOverallScore entered (settings.weightsByMode c.job.mode) c.job.mode = some overall ∧
      buildFeedbackReport c.completed overall c.job.mode warning c.job.locale = some report ∧
      data "overall_score" = some (.number overall) ∧
      data "feedback_text" = some (.report report) ∧
      data "aspect_scores" = some (.numbers entered) := by
  unfold aggregateRun at h
  -- what each line reads; only the first ones and the report matter here
  obtain ⟨entered, hentered, h⟩ := Option.bind_eq_some_iff.mp h
  obtain ⟨overall, hoverall, h⟩ := Option.bind_eq_some_iff.mp h
  obtain ⟨signals, -, h⟩ := Option.bind_eq_some_iff.mp h
  obtain ⟨_, -, h⟩ := Option.bind_eq_some_iff.mp h
  obtain ⟨_, -, h⟩ := Option.bind_eq_some_iff.mp h
  obtain ⟨report, hreport, h⟩ := Option.bind_eq_some_iff.mp h
  obtain ⟨_, -, h⟩ := Option.bind_eq_some_iff.mp h
  cases h
  exact ⟨entered, overall, report, _, hentered, hoverall, hreport, rfl, rfl, rfl⟩

theorem scoreOf_eq_field (stages : Completed (Fields Datum)) (aspect : String) :
    scoreOf stages aspect = (field stages aspect "score").bind Datum.float := by
  unfold scoreOf dataOf field number
  cases stages aspect with
  | none => rfl
  | some r => cases hdata : r.data <;> simp [hdata]

theorem scoreOf_prune (stages : Completed (Fields Datum)) (aspect : String) :
    scoreOf (prune stages) aspect = scoreOf stages aspect := by
  rw [scoreOf_eq_field, field_prune_score, ← scoreOf_eq_field]

theorem adjustedScore_prune (stages : Completed (Fields Datum)) :
    adjustedScore (prune stages) = adjustedScore stages := by
  unfold adjustedScore dataOf
  rw [prune_of_ne (by decide)]

theorem scoreOf_update {aspect : String} (haspect : aspect ≠ "aggregate")
    (r : Option (StageResult (Fields Datum))) :
    scoreOf (Function.update completed "aggregate" r) aspect = scoreOf completed aspect := by
  unfold scoreOf dataOf
  rw [Function.update_of_ne haspect]

theorem adjustedScore_update (r : Option (StageResult (Fields Datum))) :
    adjustedScore (Function.update completed "aggregate" r) = adjustedScore completed := by
  unfold adjustedScore dataOf
  rw [Function.update_of_ne (by decide)]

/-- The score that is substituted for the measured pitch score, if there is one, is the measured
one. -/
def KeepsPitchScore (stages : Completed (Fields Datum)) : Prop :=
  ∀ x, adjustedScore stages = some (some x) → scoreOf stages "pitch" = some x

/-- The scores of the mode are whole numbers. -/
def WholeScores (mode : Mode) (stages : Completed (Fields Datum)) : Prop :=
  ∀ aspect ∈ modeAspects mode, ∀ x, scoreOf stages aspect = some x → ∃ n : ℤ, x = n

/-- A number is printed as it is if it is a whole one. -/
theorem printWhole_eq_iff {x : ℚ} : (printWhole x : ℚ) = x ↔ ∃ n : ℤ, x = n := by
  constructor
  · intro h
    exact ⟨printWhole x, h.symm⟩
  · rintro ⟨n, rfl⟩
    exact congrArg Int.cast (roundHalfEven_intCast n)

/-- What is put in enters the sum. -/
theorem mem_substitutePitch (h : aspectScores completed mode = some scores) (x : ℚ) :
    ("pitch", x) ∈ substitutePitch (some x) scores := by
  have hpitch : "pitch" ∈ modeAspects mode := by cases mode <;> decide
  rw [← (aspectScores_spec h).1, List.mem_map] at hpitch
  obtain ⟨p, hp, hname⟩ := hpitch
  refine List.mem_map.mpr ⟨p, hp, ?_⟩
  rw [if_pos hname, hname]

/-- The substitution changes nothing if it puts in what is there. -/
theorem substitutePitch_eq (h : aspectScores completed mode = some scores) {adjusted : Option ℚ}
    (hkeeps : ∀ x, adjusted = some x → scoreOf completed "pitch" = some x) :
    substitutePitch adjusted scores = scores := by
  cases adjusted with
  | none => rfl
  | some score =>
    rw [substitutePitch]
    conv_rhs => rw [← List.map_id scores]
    refine List.map_congr_left fun p hp => ?_
    split_ifs with hname
    · have hmeasured := (aspectScores_spec h).2 p hp
      rw [hname, hkeeps score rfl] at hmeasured
      cases hmeasured
      rfl
    · rfl

end Scores

/-! ## The saved result of `aggregate` -/

section Pipeline

variable {settings : AggregateSettings}
variable {produce : String → Context (Job Datum) (Fields Datum) → ℕ × Option (Fields Datum)}
variable {parallelAspects : Bool} {modelVersions : List (String × String)}

theorem names_buildStages (settings : AggregateSettings)
    (produce : String → Context (Job Datum) (Fields Datum) → ℕ × Option (Fields Datum))
    (parallelAspects : Bool) :
    (flatten (buildStages settings produce parallelAspects)).map PipelineStage.name =
      ["preprocess", "separate_recording", "features", "align", "pitch", "key_normalization",
        "rhythm", "vibrato", "dynamics", "timbre", "breath", "recording_condition", "aggregate"] := by
  cases parallelAspects <;> rfl

theorem slots_buildStages (mode : Mode) :
    slots (stagesForMode (buildStages settings produce parallelAspects) (some mode)) =
      slots (stagesForMode (measuringStages produce parallelAspects) (some mode)) ++
        [(aggregateStage settings produce, false)] := by
  rw [buildStages, stagesForMode, List.filterMap_append, slots, List.flatMap_append]
  cases mode <;> rfl

/-- The stages of a mode measure its aspects and no others. -/
theorem not_mem_measuringStages {mode : Mode} {aspect : String} (haspect : aspect ∈ aspects)
    (hmode : aspect ∉ modeAspects mode) :
    aspect ∉ (slots (stagesForMode (measuringStages produce parallelAspects) (some mode))).map
      fun t => t.1.name := by
  cases mode with
  | clean => exact absurd haspect hmode
  | mixed =>
    have hnames : (slots (stagesForMode (measuringStages produce parallelAspects)
        (some .mixed))).map (fun t => t.1.name) =
          ["preprocess", "separate_recording", "features", "align", "pitch", "key_normalization",
            "rhythm", "vibrato", "dynamics", "recording_condition"] := by
      cases parallelAspects <;> rfl
    rw [hnames]
    revert aspect
    decide

/-- **The saved result of `aggregate`** is what the stage makes of the other saved results,
which are those of the mode. -/
theorem aggregate_of_saved {base : Row Datum} {context : Context (Job Datum) (Fields Datum)}
    {met : Failures}
    (hindependent : ∀ entry ∈ buildStages settings produce parallelAspects, entry.Independent)
    (hcontext : context.completed = fun _ => none)
    (hsaved : Saved (buildStages settings produce parallelAspects) context (some base.mode)
      base.stages met)
    (hall : AllSaved (analysisHandler settings produce parallelAspects modelVersions) base) :
    ∃ before r, base.stages = Function.update before "aggregate" (some r) ∧
      r.data = aggregateRun settings ⟨context.job, before⟩ ∧
      ∀ aspect ∈ aspects, aspect ∉ modeAspects base.mode → before aspect = none := by
  have hnames : ((flatten (buildStages settings produce parallelAspects)).map
      PipelineStage.name).Nodup := by
    rw [names_buildStages]
    decide
  obtain ⟨xs, ys, results, hslots, hprefixed⟩ := hsaved.prefixed hnames hindependent
  -- every slot is among the first
  have hys : ys = [] := by
    rw [List.eq_nil_iff_forall_not_mem]
    intro t ht
    have hmem : t.1 ∈ flatten (stagesForMode (buildStages settings produce parallelAspects)
        (some base.mode)) := by
      rw [← slots_map_fst, hslots, List.map_append]
      exact List.mem_append_right _ (List.mem_map_of_mem ht)
    have hsome := hall t.1 hmem
    have hnodup := hslots ▸ nodup_slots hnames (some base.mode)
    rw [List.map_append, List.nodup_append] at hnodup
    rw [Option.isSome_iff_ne_none, hprefixed.recorded, ne_eq, record_eq_none,
      hprefixed.stages] at hsome
    refine hsome ⟨rfl, fun hfirst => ?_⟩
    exact hnodup.2.2 _ hfirst _ (List.mem_map_of_mem ht) rfl
  rw [hys, List.append_nil, slots_buildStages] at hslots
  generalize hmeasuring : slots (stagesForMode (measuringStages produce parallelAspects)
    (some base.mode)) = measuring at hslots
  have htrace := hprefixed.trace
  rw [← hslots] at htrace
  -- the trace gets through the measuring stages, and then through the last one
  have hthrough : (trace met measuring context).2 = none := by
    cases herror : (trace met measuring context).2 with
    | none => rfl
    | some e =>
      rw [trace_append_error herror] at htrace
      rw [htrace] at herror
      cases herror
  rw [trace_append hthrough] at htrace
  generalize hfront : (trace met measuring context).1 = front at htrace
  cases hr : (Slot.verdict met (aggregateStage settings produce, false)).result
      (aggregateStage settings produce) (context.withResults front) with
  | error e =>
    rw [trace_cons_error hr] at htrace
    cases htrace
  | ok r =>
    rw [trace_cons_ok hr] at htrace
    cases htrace
    refine ⟨record (fun _ => none) front, r, ?_, ?_, fun aspect haspect hmode => ?_⟩
    · have hstage : r.stage = "aggregate" := stage_of_result hr
      rw [hprefixed.recorded, record_append, ← hstage]
      rfl
    · have hbefore : context.withResults front = ⟨context.job, record (fun _ => none) front⟩ := by
        have hstart : startContext context (record (fun _ => none) front) =
            (startContext context fun _ => none).withResults front := startContext_record _ _
        rw [startContext_none] at hstart
        rw [← hstart, startContext, hcontext]
        simp only [Option.or_none]
      -- `aggregate` is required, so what is saved of it is what it returned
      rw [hbefore] at hr
      cases hverdict : Slot.verdict met (aggregateStage settings produce, false) with
      | succeeded =>
        rw [hverdict] at hr
        cases hr
        rfl
      | raised e =>
        rw [hverdict] at hr
        cases hr
      | skipped e =>
        have hoptional : (aggregateStage settings produce).required = false :=
          required_of_skipped hverdict
        cases hoptional
    · rw [record_eq_none, ← hfront, trace_stages hthrough, ← hmeasuring]
      exact ⟨rfl, not_mem_measuringStages haspect hmode⟩

/-! ## What the user is shown -/

/-- What a done row shows is `overall` and `report`, and the scores that entered the one are
those in the columns and, read as `shown`, those printed in the other; the aspect it names is the
lowest of them. -/
structure ScoresAgree (settings : AggregateSettings) (shown : ℚ → ℚ) (row : Row Datum)
    (entered : List (String × ℚ)) (overall : ℚ) (report : FeedbackReport) : Prop where
  printed : report.paragraphs.map (fun p => (p.aspect, (p.score : ℚ))) =
    entered.map fun p => (p.1, shown p.2)
  persisted : ∀ aspect ∈ aspects, ∀ d, row.scores aspect = some d ↔
    ∃ x, d = .number x ∧ (aspect, x) ∈ entered
  weighted : weightedOverallScore entered (settings.weightsByMode row.mode) row.mode = some overall
  overall : report.overall = printWhole overall
  focus : ∃ x, (report.focus, x) ∈ entered ∧ (report.focusScore : ℚ) = shown x ∧
    ∀ p ∈ entered, x ≤ p.2

/-- **One set of aspect scores.**  The report prints those that entered the sum if `shown` is the
identity, and their roundings if it is `printWhole`. -/
def OneSetOfScores (settings : AggregateSettings) (shown : ℚ → ℚ) (row : Row Datum) : Prop :=
  ∃ scoring entered overall report, row.scoring = some scoring ∧
    scoring.overallScore = .number overall ∧ scoring.feedbackText = .report report ∧
    field row.stages "aggregate" "aspect_scores" = some (.numbers entered) ∧
    ScoresAgree settings shown row entered overall report

theorem scoring_spec {data : Fields Datum} {scoring : Scoring Datum} {overall : ℚ}
    {report : FeedbackReport} (hoverall : data "overall_score" = some (.number overall))
    (hreport : data "feedback_text" = some (.report report))
    (h : conversions.scoring data = some scoring) :
    scoring.overallScore = .number overall ∧ scoring.feedbackText = .report report := by
  unfold Conversions.scoring at h
  rw [hoverall, hreport] at h
  obtain ⟨_, hx, h⟩ := Option.bind_eq_some_iff.mp h
  cases hx
  obtain ⟨_, -, h⟩ := Option.bind_eq_some_iff.mp h
  obtain ⟨_, -, h⟩ := Option.bind_eq_some_iff.mp h
  obtain ⟨_, hy, h⟩ := Option.bind_eq_some_iff.mp h
  cases hy
  -- the other arguments
  obtain ⟨_, -, h⟩ := Option.bind_eq_some_iff.mp h
  obtain ⟨_, -, h⟩ := Option.bind_eq_some_iff.mp h
  obtain ⟨_, -, h⟩ := Option.bind_eq_some_iff.mp h
  obtain ⟨_, -, h⟩ := Option.bind_eq_some_iff.mp h
  obtain ⟨_, -, h⟩ := Option.bind_eq_some_iff.mp h
  obtain ⟨_, -, h⟩ := Option.bind_eq_some_iff.mp h
  obtain ⟨_, -, h⟩ := Option.bind_eq_some_iff.mp h
  obtain ⟨_, -, h⟩ := Option.bind_eq_some_iff.mp h
  obtain ⟨_, -, h⟩ := Option.bind_eq_some_iff.mp h
  cases h
  exact ⟨rfl, rfl⟩

/-- What a done row shows, in terms of the saved results alone. -/
structure Shown (settings : AggregateSettings) (row : Row Datum) (scores : List (String × ℚ))
    (adjusted : Option ℚ) (overall : ℚ) (report : FeedbackReport) : Prop where
  measured : aspectScores row.stages row.mode = some scores
  substituted : adjustedScore row.stages = some adjusted
  weighted : weightedOverallScore (substitutePitch adjusted scores)
    (settings.weightsByMode row.mode) row.mode = some overall
  printed : report.overall = printWhole overall ∧
    report.paragraphs.map (fun p => (p.aspect, p.score)) =
      scores.map fun p => (p.1, printWhole p.2)
  focus : ∃ x, (report.focus, x) ∈ scores ∧ report.focusScore = printWhole x ∧ ∀ p ∈ scores, x ≤ p.2
  scoring : ∃ scoring, row.scoring = some scoring ∧ scoring.overallScore = .number overall ∧
    scoring.feedbackText = .report report
  entered : field row.stages "aggregate" "aspect_scores" =
    some (.numbers (substitutePitch adjusted scores))
  columns : ∀ aspect ∈ aspects, row.scores aspect = (scoreOf row.stages aspect).map .number
  others : ∀ aspect ∈ aspects, aspect ∉ modeAspects row.mode → scoreOf row.stages aspect = none

theorem scores_eq_scoreOf (stages : Completed (Fields Datum)) (aspect : String) :
    (field stages aspect "score").bind conversions.float =
      (scoreOf stages aspect).map Datum.number := by
  rw [scoreOf_eq_field]
  cases field stages aspect "score" with
  | none => rfl
  | some d => rfl

/-- The scores of the stages before `aggregate` are those saved in the row. -/
theorem aspectScores_update (mode : Mode) (r : Option (StageResult (Fields Datum)))
    (completed : Completed (Fields Datum)) :
    aspectScores (prune (Function.update completed "aggregate" r)) mode =
      aspectScores completed mode := by
  rw [aspectScores_eq, aspectScores_eq]
  refine mapM_congr fun aspect haspect => ?_
  have hne : aspect ≠ "aggregate" := by
    rintro rfl
    revert haspect
    cases mode <;> decide
  rw [scoreOf_prune, scoreOf_update hne]

/-- **What a done analysis shows**, wherever its deliveries were cut off. -/
theorem shown_of_done {w : World Datum} {id : AnalysisId} {start row : Row Datum}
    (hindependent : ∀ entry ∈ buildStages settings produce parallelAspects, entry.Independent)
    (hstart : w.db.analyses id = some start)
    (hunderway : Underway (analysisHandler settings produce parallelAspects modelVersions) w.db id
      start)
    (deliveries : List Delivery)
    (hrow : (deliverAll (analysisHandler settings produce parallelAspects modelVersions) id
      deliveries w).db.analyses id = some row) (hdone : row.status = .done) :
    ∃ scores adjusted overall report, Shown settings row scores adjusted overall report := by
  obtain ⟨base, hbase, hall, hsong, hconvertible, hrow⟩ :=
    concluded_of_done hstart hunderway deliveries hrow hdone
  obtain ⟨context, hcontext⟩ := exists_contextOf id hsong
  obtain ⟨met, hsaved⟩ := hbase.saved context hcontext
  obtain ⟨-, hmode, hcompleted⟩ := contextOf_eq hcontext
  obtain ⟨before, r, hstages, hdata, hothers⟩ :=
    aggregate_of_saved hindependent hcompleted hsaved hall
  -- the result of `aggregate` is data, or `_persist_scores` would have raised
  have hdataOf : aggregateData (prune base.stages) = some (r.data.getD fun _ => none) := by
    rw [aggregateData_prune, aggregateData, hstages, Function.update_self]
    rfl
  obtain ⟨scoring, hscoring⟩ := Option.ne_none_iff_exists'.mp (hconvertible.scoring _ hdataOf)
  cases hrun : aggregateRun settings ⟨context.job, before⟩ with
  | none =>
    rw [hdata, hrun] at hscoring
    cases hscoring
  | some data =>
    rw [hdata, hrun, Option.getD_some] at hscoring hdataOf
    obtain ⟨entered, overall, report, warning, hentered, hweighted, hreport, hoverall, htext,
      hkept⟩ := aggregateRun_spec hrun
    dsimp only at hentered hweighted hreport
    rw [hmode] at hentered hweighted hreport
    obtain ⟨scores, hscores, hentered⟩ := Option.bind_eq_some_iff.mp hentered
    obtain ⟨adjusted, hadjusted, hentered⟩ := Option.bind_eq_some_iff.mp hentered
    cases hentered
    have hrowMode : row.untime.mode = base.mode := by rw [hrow]; rfl
    have hrowStages : row.untime.stages = prune base.stages := by rw [hrow]; rfl
    have hsame : aspectScores row.stages row.mode = some scores := by
      show aspectScores row.untime.stages row.untime.mode = some scores
      rw [hrowMode, hrowStages, hstages, aspectScores_update, ← hscores]
    obtain ⟨hscoringOverall, hscoringText⟩ := scoring_spec hoverall htext hscoring
    obtain ⟨printed, hprinted, hreportOverall, hparagraphs, hfocus⟩ :=
      buildFeedbackReport_spec hreport
    obtain rfl : scores = printed := Option.some.inj (hscores.symm.trans hprinted)
    refine ⟨scores, adjusted, overall, report, hsame, ?_, ?_, ⟨hreportOverall, hparagraphs⟩,
      hfocus, ⟨scoring, ?_, hscoringOverall, hscoringText⟩, ?_, ?_, ?_⟩
    · show adjustedScore row.untime.stages = some adjusted
      rw [hrowStages, adjustedScore_prune, hstages, adjustedScore_update, ← hadjusted]
    · show weightedOverallScore _ (settings.weightsByMode row.untime.mode) row.untime.mode = _
      rw [hrowMode, hweighted]
    · show row.untime.scoring = some scoring
      rw [hrow, Row.target, ← aggregateData_prune, hdataOf, Option.bind_some, hscoring]
      rfl
    · show field row.untime.stages "aggregate" "aspect_scores" = _
      rw [hrowStages, field_prune, if_neg (by decide), hstages]
      simp [field, hdata, hrun, hkept]
    · intro aspect haspect
      show row.untime.scores aspect = (scoreOf row.untime.stages aspect).map .number
      rw [hrowStages, scoreOf_prune, hrow, target_scores haspect, hbase.scores, Option.or_none]
      exact scores_eq_scoreOf base.stages aspect
    · intro aspect haspect hunmeasured
      show scoreOf row.untime.stages aspect = none
      have hne : aspect ≠ "aggregate" := by
        rintro rfl
        exact absurd haspect (by decide)
      have hmissing := hothers aspect haspect (hrowMode ▸ hunmeasured)
      rw [hrowStages, scoreOf_prune, hstages, scoreOf_update hne, scoreOf, dataOf, hmissing]
      rfl

/-- The columns hold what entered the sum just where the substitution changes nothing. -/
theorem Shown.persisted_iff {row : Row Datum} {scores : List (String × ℚ)} {adjusted : Option ℚ}
    {overall : ℚ} {report : FeedbackReport}
    (h : Shown settings row scores adjusted overall report) :
    (∀ aspect ∈ aspects, ∀ d, row.scores aspect = some d ↔
      ∃ x, d = .number x ∧ (aspect, x) ∈ substitutePitch adjusted scores) ↔
      substitutePitch adjusted scores = scores ∧ KeepsPitchScore row.stages := by
  have hkeeps : KeepsPitchScore row.stages ↔
      ∀ x, adjusted = some x → scoreOf row.stages "pitch" = some x := by
    simp only [KeepsPitchScore, h.substituted, Option.some.injEq]
  constructor
  · intro hpersisted
    have hput : ∀ x, adjusted = some x → scoreOf row.stages "pitch" = some x := by
      rintro x rfl
      have hcolumn := (hpersisted "pitch" (by decide) (.number x)).mpr
        ⟨x, rfl, mem_substitutePitch h.measured x⟩
      rw [h.columns "pitch" (by decide), Option.map_eq_some_iff] at hcolumn
      obtain ⟨y, hy, hxy⟩ := hcolumn
      cases hxy
      exact hy
    exact ⟨substitutePitch_eq h.measured hput, hkeeps.mpr hput⟩
  · rintro ⟨hsame, -⟩ aspect haspect d
    rw [hsame, h.columns aspect haspect, Option.map_eq_some_iff]
    simp only [mem_aspectScores h.measured]
    constructor
    · rintro ⟨x, hx, rfl⟩
      refine ⟨x, rfl, ?_, hx⟩
      by_contra hunmeasured
      rw [h.others aspect haspect hunmeasured] at hx
      cases hx
    · rintro ⟨x, rfl, -, hx⟩
      exact ⟨x, hx, rfl⟩

/-- What is shown is one set of scores exactly where the substitution changes nothing, and the
scores of the mode are printed as they are read. -/
theorem Shown.oneSetOfScores_iff_keeps {row : Row Datum} {scores : List (String × ℚ)}
    {adjusted : Option ℚ} {overall : ℚ} {report : FeedbackReport}
    (h : Shown settings row scores adjusted overall report) (shown : ℚ → ℚ) :
    OneSetOfScores settings shown row ↔ KeepsPitchScore row.stages ∧
      ∀ p ∈ scores, (printWhole p.2 : ℚ) = shown p.2 := by
  obtain ⟨scoring, hscoring, hoverall, htext⟩ := h.scoring
  have hprinted : report.paragraphs.map (fun p => (p.aspect, (p.score : ℚ))) =
      scores.map fun p => (p.1, (printWhole p.2 : ℚ)) := by
    have hcast := congrArg (List.map fun q : String × ℤ => (q.1, (q.2 : ℚ))) h.printed.2
    rwa [List.map_map, List.map_map] at hcast
  constructor
  · rintro ⟨scoring', entered, overall', report', hscoring', -, htext', hentered, hagree⟩
    obtain rfl : scoring = scoring' := Option.some.inj (hscoring.symm.trans hscoring')
    rw [htext] at htext'
    cases htext'
    rw [h.entered] at hentered
    cases hentered
    obtain ⟨hsame, hkeeps⟩ := h.persisted_iff.mp hagree.persisted
    refine ⟨hkeeps, fun p hp => ?_⟩
    have hboth := hprinted.symm.trans hagree.printed
    rw [hsame, List.map_inj_left] at hboth
    exact congrArg Prod.snd (hboth p hp)
  · rintro ⟨hkeeps, hshown⟩
    have hsame : substitutePitch adjusted scores = scores :=
      substitutePitch_eq h.measured fun x hx => hkeeps x (h.substituted.trans (congrArg some hx))
    obtain ⟨x, hmem, hscore, hleast⟩ := h.focus
    refine ⟨scoring, scores, overall, report, hscoring, hoverall, htext, ?_, ?_, ?_, ?_,
      h.printed.1, x, hmem, ?_, hleast⟩
    · rw [h.entered, hsame]
    · rw [hprinted]
      exact List.map_congr_left fun p hp => congrArg (Prod.mk p.1) (hshown p hp)
    · have hpersisted := h.persisted_iff.mpr ⟨hsame, hkeeps⟩
      rwa [hsame] at hpersisted
    · rw [← h.weighted, hsame]
    · rw [hscore]
      exact hshown (report.focus, x) hmem

/-- The scores of the mode are whole numbers just where the report prints them as they are. -/
theorem Shown.wholeScores_iff {row : Row Datum} {scores : List (String × ℚ)} {adjusted : Option ℚ}
    {overall : ℚ} {report : FeedbackReport}
    (h : Shown settings row scores adjusted overall report) :
    (∀ p ∈ scores, (printWhole p.2 : ℚ) = p.2) ↔ WholeScores row.mode row.stages := by
  simp only [printWhole_eq_iff]
  constructor
  · intro hwhole aspect haspect x hx
    exact hwhole (aspect, x) ((mem_aspectScores h.measured).mpr ⟨haspect, hx⟩)
  · rintro hwhole ⟨aspect, x⟩ hp
    obtain ⟨haspect, hx⟩ := (mem_aspectScores h.measured).mp hp
    exact hwhole aspect haspect x hx

/-- **One set of aspect scores**: what a done analysis shows is one, whatever its mode, its
weights and its scores were and wherever its deliveries were cut off, if and only if the
key-normalized pitch score, where it is substituted, is the measured one, and the scores are whole
numbers, as the report prints them.  Up to that rounding, the substitution alone decides. -/
theorem oneSetOfScores_iff {w : World Datum} {analysisId : AnalysisId} {start row : Row Datum}
    (hindependent : ∀ entry ∈ buildStages settings produce parallelAspects, entry.Independent)
    (hstart : w.db.analyses analysisId = some start)
    (hunderway : Underway (analysisHandler settings produce parallelAspects modelVersions) w.db
      analysisId start)
    (deliveries : List Delivery)
    (hrow : (deliverAll (analysisHandler settings produce parallelAspects modelVersions) analysisId
      deliveries w).db.analyses analysisId = some row) (hdone : row.status = .done) :
    (OneSetOfScores settings id row ↔
      KeepsPitchScore row.stages ∧ WholeScores row.mode row.stages) ∧
    (OneSetOfScores settings (fun x => printWhole x) row ↔ KeepsPitchScore row.stages) := by
  obtain ⟨scores, adjusted, overall, report, hshown⟩ :=
    shown_of_done hindependent hstart hunderway deliveries hrow hdone
  refine ⟨(hshown.oneSetOfScores_iff_keeps _).trans (and_congr_right' hshown.wholeScores_iff),
    (hshown.oneSetOfScores_iff_keeps _).trans (and_iff_left fun _ _ => rfl)⟩

end Pipeline

/-! ## A song in another key -/

/-- The data of the stages of a mixed analysis, sung 80 points' worth in tune. -/
def measuredData (normalized : List (String × Datum)) (stage : String) : List (String × Datum) :=
  match stage with
  | "align" =>
      [("reference_start_offset_seconds", .number 0), ("normalized_distance", .number (1 / 4)),
        ("length_mismatch", .bool false)]
  | "pitch" =>
      [("score", .number 80), ("mean_abs_cents", .number 40), ("voiced_fraction", .number (9 / 10))]
  | "key_normalization" =>
      [("out_of_range", .bool false), ("key_shift_semitones", .number (-2))] ++ normalized
  | "rhythm" =>
      [("score", .number 90), ("mean_abs_offset_ms", .number 30),
        ("onsets_within_tolerance", .number 9), ("reference_onset_count", .number 10)]
  | "dynamics" => [("score", .number 60), ("correlation", .number (3 / 5))]
  | "vibrato" =>
      [("score", .number 100), ("user", .vibrato ⟨false, none, none⟩),
        ("reference", .vibrato ⟨false, none, none⟩)]
  | "recording_condition" =>
      [("accompaniment_detected", .bool true), ("warnings", .texts []),
        ("effective_mode", .text "mixed"), ("accompaniment_level", .number (1 / 2))]
  | _ => []

/-- Stages that return these data. -/
def measured (normalized : List (String × Datum)) (stage : String)
    (_ : Context (Job Datum) (Fields Datum)) : ℕ × Option (Fields Datum) :=
  (1, some fun key => (measuredData normalized stage).lookup key)

def measuredSettings : AggregateSettings where
  weightsByMode _ := [("pitch", 1 / 2), ("rhythm", 3 / 10), ("dynamics", 1 / 10), ("vibrato", 1 / 10)]
  scoringVersion := "2.0"

/-- Analysis 1 is queued. -/
def queuedMixed : World Datum where
  db :=
    { analyses := fun id =>
        if id = 1 then
          some
            { userId := 0
              songId := 0
              status := .queued
              mode := .mixed
              allowTransposition := true
              locale := "en"
              stages := fun _ => none }
        else none
      songs := fun _ => some { vocalStemPath := some "stem.wav", referencePitch := some .null, lyrics := none }
      snapshots := ⟨[], List.nodup_nil⟩ }

theorem underway_queuedMixed (normalized : List (String × Datum)) :
    ∃ start, queuedMixed.db.analyses 1 = some start ∧
      Underway (analysisHandler measuredSettings (measured normalized) false []) queuedMixed.db 1
        start :=
  ⟨_, rfl, by decide, rfl, fun _ _ => ⟨_, Saved.nothing⟩⟩

/-- The row after one delivery. -/
def finishedRow (normalized : List (String × Datum)) : Option (Row Datum) :=
  (deliverAll (analysisHandler measuredSettings (measured normalized) false []) 1 [{}]
    queuedMixed).db.analyses 1

theorem independent_measured (normalized : List (String × Datum)) :
    ∀ entry ∈ buildStages measuredSettings (measured normalized) false, entry.Independent := by
  intro entry hentry
  cases entry with
  | stage s => trivial
  | group members => simp [buildStages, measuringStages] at hentry

/-- Sung in the key of the song: there is one set of scores. -/
theorem oneSetOfScores_iff_sameKey :
    ∃ row, finishedRow [("applied", .bool false), ("adjusted_score", .null)] = some row ∧
      row.status = .done ∧ OneSetOfScores measuredSettings id row := by
  obtain ⟨row, hrow, hvalues⟩ := Option.map_eq_some_iff.mp (show
    (finishedRow [("applied", .bool false), ("adjusted_score", .null)]).map
      (fun r => (r.status, r.mode, adjustedScore r.stages,
        (modeAspects .mixed).map (scoreOf r.stages))) =
          some (.done, .mixed, some none, [some 80, some 90, some 60, some 100]) by decide +kernel)
  simp only [Prod.mk.injEq] at hvalues
  obtain ⟨hdone, hmode, hadjusted, hscores⟩ := hvalues
  obtain ⟨start, hstart, hunderway⟩ :=
    underway_queuedMixed [("applied", .bool false), ("adjusted_score", .null)]
  refine ⟨row, hrow, hdone, (oneSetOfScores_iff (independent_measured _) hstart hunderway [{}] hrow
    hdone).1.mpr ⟨fun x hx => ?_, ?_⟩⟩
  · rw [hadjusted] at hx
    cases hx
  · rw [hmode]
    intro aspect haspect x hx
    have hmem : some x ∈ [some (80 : ℚ), some 90, some 60, some 100] := by
      rw [← hscores, ← hx]
      exact List.mem_map_of_mem haspect
    simp only [List.mem_cons, Option.some.injEq, List.not_mem_nil, or_false] at hmem
    rcases hmem with rfl | rfl | rfl | rfl
    · exact ⟨80, rfl⟩
    · exact ⟨90, rfl⟩
    · exact ⟨60, rfl⟩
    · exact ⟨100, rfl⟩

/-- **Not every done analysis shows one set of scores**: sung two semitones lower, the report and
the column have the pitch score 80, the sum has 95. -/
theorem not_forall_oneSetOfScores :
    ¬ ∀ (settings : AggregateSettings)
        (produce : String → Context (Job Datum) (Fields Datum) → ℕ × Option (Fields Datum))
        (parallelAspects : Bool) (modelVersions : List (String × String)) (w : World Datum)
        (analysisId : AnalysisId) (start row : Row Datum) (deliveries : List Delivery),
      (∀ entry ∈ buildStages settings produce parallelAspects, entry.Independent) →
      w.db.analyses analysisId = some start →
      Underway (analysisHandler settings produce parallelAspects modelVersions) w.db analysisId
        start →
      (deliverAll (analysisHandler settings produce parallelAspects modelVersions) analysisId
        deliveries w).db.analyses analysisId = some row →
      row.status = .done → OneSetOfScores settings id row := by
  intro hall
  obtain ⟨row, hrow, hvalues⟩ := Option.map_eq_some_iff.mp (show
    (finishedRow [("applied", .bool true), ("adjusted_score", .number 95)]).map
      (fun r => (r.status, adjustedScore r.stages, scoreOf r.stages "pitch")) =
        some (.done, some (some 95), some 80) by decide +kernel)
  simp only [Prod.mk.injEq] at hvalues
  obtain ⟨hdone, hadjusted, hscore⟩ := hvalues
  obtain ⟨start, hstart, hunderway⟩ :=
    underway_queuedMixed [("applied", .bool true), ("adjusted_score", .number 95)]
  have hone := hall _ _ _ _ _ _ _ _ _ (independent_measured _) hstart hunderway hrow hdone
  obtain ⟨scores, adjusted, overall, report, hshown⟩ :=
    shown_of_done (independent_measured _) hstart hunderway [{}] hrow hdone
  have hkept := ((hshown.oneSetOfScores_iff_keeps _).mp hone).1 95 hadjusted
  rw [hscore] at hkept
  revert hkept
  decide

end VocalCoach.Pipeline.Completion
