/-
# What the end of `handle` makes of a row

`Row.target` is what `handle` makes of a row whose stages are all saved, up to timestamps.
Every statement leaves the target as it is (`Between`): what it writes, the next delivery
would write again, and what the pruning takes away from the stages is in its columns by then
(`Persisted`).
-/
import VocalCoach.Completion
import Mathlib.Data.List.Basic
import Mathlib.Tactic.Common

namespace VocalCoach.Pipeline.Completion

open Program

variable {Value : Type} {h : Handler Value} {id : AnalysisId}
variable {stages : Completed (Fields Value)} {r base : Row Value} {t baseTable : Snapshots Value}

/-! ## Pruned stages -/

theorem prune_of_ne {stage : String} (hstage : stage ≠ "pitch") : prune stages stage = stages stage :=
  Function.update_of_ne hstage _ _

theorem prune_pitch : prune stages "pitch" = (stages "pitch").map fun r =>
    { r with data := r.data.map fun data key => if key ∈ denseFields then none else data key } :=
  Function.update_self _ _ _

/-- A field that is dense is gone, the others are as they were. -/
theorem field_prune (stages : Completed (Fields Value)) (stage key : String) :
    field (prune stages) stage key =
      if stage = "pitch" ∧ key ∈ denseFields then none else field stages stage key := by
  by_cases hstage : stage = "pitch"
  · subst hstage
    unfold field
    rw [prune_pitch]
    cases hr : stages "pitch" with
    | none => simp
    | some r =>
      cases hdata : r.data with
      | none => simp [hdata]
      | some data => simp [hdata]
  · rw [if_neg fun hboth => hstage hboth.1, field, prune_of_ne hstage]
    rfl

theorem field_prune_score (stages : Completed (Fields Value)) (stage : String) :
    field (prune stages) stage "score" = field stages stage "score" := by
  rw [field_prune, if_neg]
  rintro ⟨-, hdense⟩
  exact absurd hdense (by decide)

theorem aggregateData_prune (stages : Completed (Fields Value)) :
    aggregateData (prune stages) = aggregateData stages := by
  rw [aggregateData, prune_of_ne (by decide), aggregateData]

theorem prune_prune (stages : Completed (Fields Value)) : prune (prune stages) = prune stages := by
  funext stage
  by_cases hstage : stage = "pitch"
  · subst hstage
    rw [prune_pitch, prune_pitch, Option.map_map]
    congr 1
    funext r
    simp only [Function.comp_apply, Option.map_map]
    congr 1
    congr 1
    funext data key
    simp only [Function.comp_apply]
    split <;> rfl
  · rw [prune_of_ne hstage]

/-- Pruning takes no stage away. -/
theorem isSome_prune (stages : Completed (Fields Value)) (stage : String) :
    (prune stages stage).isSome = (stages stage).isSome := by
  by_cases hstage : stage = "pitch"
  · subst hstage
    rw [prune_pitch, Option.isSome_map]
  · rw [prune_of_ne hstage]

/-! ## Targets -/

/-- `progress_snapshots` up to the time of the row of this analysis. -/
def Snapshot.untime (id : AnalysisId) (s : Snapshot Value) : Snapshot Value :=
  if s.analysisId = id then { s with createdAt := 0 } else s

@[simp] theorem Snapshot.untime_analysisId (id : AnalysisId) (s : Snapshot Value) :
    (s.untime id).analysisId = s.analysisId := by
  unfold Snapshot.untime
  split <;> rfl

def Snapshots.untime (id : AnalysisId) (t : Snapshots Value) : Snapshots Value :=
  ⟨t.val.map (Snapshot.untime id), by
    have hids : (t.val.map (Snapshot.untime id)).map Snapshot.analysisId =
        t.val.map Snapshot.analysisId := by
      simp [Function.comp_def]
    rw [hids]
    exact t.property⟩

/-- A row up to the time it was completed. -/
def Row.untime (r : Row Value) : Row Value := { r with completedAt := none }

/-- The database up to the timestamps of the analysis. -/
def Database.untime (id : AnalysisId) (db : Database Value) : Database Value :=
  { db.updateAnalysis id Row.untime with snapshots := Snapshots.untime id db.snapshots }

/-- What the rest of `handle` makes of a row. -/
def Row.target (h : Handler Value) (r : Row Value) : Row Value :=
  { r with
    status := .done
    stages := prune r.stages
    queuePosition := none
    currentStage := none
    currentStageIndex := none
    totalStages := none
    currentStageStartedAt := none
    scores := fun aspect =>
      if aspect ∈ aspects then
        ((field r.stages aspect "score").bind h.conversions.float).or (r.scores aspect)
      else r.scores aspect
    pitchCurveJson :=
      ((field r.stages "pitch" "piano_roll").bind h.conversions.pianoRoll).or r.pitchCurveJson
    userPitch :=
      ((field r.stages "pitch" "user_pitch_curve").bind h.conversions.pitchCurve).or r.userPitch
    scoring := ((aggregateData r.stages).bind h.conversions.scoring).or r.scoring
    modelVersions := some h.modelVersions
    completedAt := none }

/-- The snapshot of a row whose `aggregate` stage has run. -/
def Row.snapshot (h : Handler Value) (id : AnalysisId) (now : Time) (r : Row Value) :
    Option (Snapshot Value) :=
  ((aggregateData r.stages).bind h.conversions.scoring).map fun scoring =>
    { userId := r.userId
      analysisId := id
      overallScore := scoring.overallScore
      mode := r.mode
      confidence := scoring.confidence
      createdAt := now }

/-- What the rest of `handle` makes of the snapshots. -/
def Row.targetSnapshots (h : Handler Value) (id : AnalysisId) (r : Row Value) (t : Snapshots Value) :
    Snapshots Value :=
  match r.snapshot h id 0 with
  | none => Snapshots.untime id t
  | some s => Snapshots.untime id (t.upsert s)

/-! ## Snapshots -/

theorem Snapshots.upsert_of_mem {s : Snapshot Value}
    (hs : s.analysisId ∈ t.val.map Snapshot.analysisId) : (t.upsert s).val = t.val.map s.merge := by
  rw [upsert, dif_pos hs]

theorem Snapshots.upsert_of_not_mem {s : Snapshot Value}
    (hs : s.analysisId ∉ t.val.map Snapshot.analysisId) : (t.upsert s).val = t.val ++ [s] := by
  rw [upsert, dif_neg hs]

theorem Snapshots.mem_upsert (t : Snapshots Value) (s : Snapshot Value) :
    s.analysisId ∈ (t.upsert s).val.map Snapshot.analysisId := by
  by_cases hs : s.analysisId ∈ t.val.map Snapshot.analysisId
  · rw [upsert_of_mem hs]
    simpa [Function.comp_def] using hs
  · rw [upsert_of_not_mem hs]
    simp

/-- A row that is inserted twice is there once. -/
theorem Snapshots.upsert_upsert (t : Snapshots Value) (s : Snapshot Value) (now : Time) :
    (t.upsert { s with createdAt := now }).upsert s = t.upsert s := by
  apply Subtype.ext
  have hmem : s.analysisId ∈ (t.upsert { s with createdAt := now }).val.map Snapshot.analysisId := by
    by_cases hs : s.analysisId ∈ t.val.map Snapshot.analysisId
    · rw [upsert_of_mem (s := { s with createdAt := now }) hs]
      simpa [Function.comp_def] using hs
    · rw [upsert_of_not_mem (s := { s with createdAt := now }) hs]
      simp
  rw [upsert_of_mem hmem]
  by_cases hs : s.analysisId ∈ t.val.map Snapshot.analysisId
  · rw [upsert_of_mem (s := { s with createdAt := now }) hs, upsert_of_mem hs, List.map_map]
    apply List.map_congr_left
    intro row _
    simp only [Function.comp_apply, Snapshot.merge]
    by_cases hrow : row.analysisId = s.analysisId
    · simp [hrow]
    · simp [hrow]
  · rw [upsert_of_not_mem (s := { s with createdAt := now }) hs, upsert_of_not_mem hs,
      List.map_append]
    congr 1
    · conv_rhs => rw [← List.map_id t.val]
      apply List.map_congr_left
      intro row hrow
      have hne : row.analysisId ≠ s.analysisId := by
        intro heq
        exact hs (heq ▸ List.mem_map_of_mem hrow)
      exact if_neg hne
    · simp [Snapshot.merge]

/-- When the row was inserted makes no difference up to timestamps. -/
theorem Snapshots.untime_upsert (t : Snapshots Value) (s : Snapshot Value) (now : Time) :
    untime s.analysisId (t.upsert { s with createdAt := now }) =
      untime s.analysisId (t.upsert s) := by
  apply Subtype.ext
  by_cases hmem : s.analysisId ∈ t.val.map Snapshot.analysisId
  · simp only [untime]
    rw [upsert_of_mem (s := { s with createdAt := now }) hmem, upsert_of_mem hmem, List.map_map,
      List.map_map]
    apply List.map_congr_left
    intro row _
    simp only [Function.comp_apply, Snapshot.merge, Snapshot.untime]
    by_cases hrow : row.analysisId = s.analysisId
    · simp [hrow]
    · simp [hrow]
  · simp only [untime]
    rw [upsert_of_not_mem (s := { s with createdAt := now }) hmem, upsert_of_not_mem hmem]
    simp [Snapshot.untime]

/-! ## Between the last stage and the end -/

/-- A row and the snapshots that the rest of `handle` makes the same of as of the row with the
last stage saved. -/
structure Between (h : Handler Value) (id : AnalysisId) (base : Row Value)
    (baseTable : Snapshots Value) (r : Row Value) (t : Snapshots Value) : Prop where
  stages : r.stages = base.stages ∨ r.stages = prune base.stages
  row : r.target h = base.target h
  snapshots : r.targetSnapshots h id t = base.targetSnapshots h id baseTable

namespace Between

theorem refl (h : Handler Value) (id : AnalysisId) (base : Row Value) (baseTable : Snapshots Value) :
    Between h id base baseTable base baseTable :=
  ⟨Or.inl rfl, rfl, rfl⟩

variable (hb : Between h id base baseTable r t)

include hb

theorem userId : r.userId = base.userId := by
  have hrow := congrArg Row.userId hb.row
  exact hrow

theorem songId : r.songId = base.songId := by
  have hrow := congrArg Row.songId hb.row
  exact hrow

theorem mode : r.mode = base.mode := by
  have hrow := congrArg Row.mode hb.row
  exact hrow

theorem isSome_stages (stage : String) : (r.stages stage).isSome = (base.stages stage).isSome := by
  rcases hb.stages with hsame | hpruned
  · rw [hsame]
  · rw [hpruned, isSome_prune]

/-- A statement that writes what is in the target already. -/
theorem of_target {r' : Row Value} (hstages : r'.stages = r.stages)
    (htarget : r'.target h = r.target h)
    (hsnapshot : r'.snapshot h id 0 = r.snapshot h id 0) : Between h id base baseTable r' t where
  stages := by
    rw [hstages]
    exact hb.stages
  row := htarget.trans hb.row
  snapshots := by
    rw [← hb.snapshots, Row.targetSnapshots, hsnapshot, Row.targetSnapshots]

theorem saveAspectScore {aspect : String} {score : Value} (haspect : aspect ∈ aspects)
    (hscore : (field r.stages aspect "score").bind h.conversions.float = some score) :
    Between h id base baseTable (r.saveAspectScore aspect score) t := by
  refine hb.of_target rfl ?_ rfl
  unfold Row.target
  congr 1
  funext other
  by_cases hother : other = aspect
  · subst hother
    rw [if_pos haspect, if_pos haspect]
    have hsame : field (r.saveAspectScore other score).stages other "score" =
        field r.stages other "score" := rfl
    rw [hsame, hscore]
    rfl
  · have hsame : (r.saveAspectScore aspect score).scores other = r.scores other :=
      Function.update_of_ne hother _ _
    rw [hsame]
    rfl

theorem savePianoRoll {roll : Value}
    (hroll : (field r.stages "pitch" "piano_roll").bind h.conversions.pianoRoll = some roll) :
    Between h id base baseTable (r.savePianoRoll roll) t := by
  refine hb.of_target rfl ?_ rfl
  simp [Row.target, Row.savePianoRoll, hroll]

theorem saveUserPitchCurve {curve : Value}
    (hcurve : (field r.stages "pitch" "user_pitch_curve").bind h.conversions.pitchCurve = some curve) :
    Between h id base baseTable (r.saveUserPitchCurve curve) t := by
  refine hb.of_target rfl ?_ rfl
  simp [Row.target, Row.saveUserPitchCurve, hcurve]

theorem saveScoringResult {scoring : Scoring Value}
    (hscoring : (aggregateData r.stages).bind h.conversions.scoring = some scoring) :
    Between h id base baseTable (r.saveScoringResult scoring) t := by
  refine hb.of_target rfl ?_ rfl
  simp [Row.target, Row.saveScoringResult, hscoring]

theorem markDone (now : Time) : Between h id base baseTable (r.markDone h.modelVersions now) t :=
  hb.of_target rfl rfl rfl

theorem record {s : Snapshot Value} {now : Time} (hs : r.snapshot h id now = some s) :
    Between h id base baseTable r (t.upsert s) where
  stages := hb.stages
  row := hb.row
  snapshots := by
    obtain ⟨scoring, hscoring, rfl⟩ := Option.map_eq_some_iff.mp hs
    rw [← hb.snapshots]
    unfold Row.targetSnapshots Row.snapshot
    rw [hscoring]
    exact congrArg (Snapshots.untime id) (Snapshots.upsert_upsert t
      { userId := r.userId, analysisId := id, overallScore := scoring.overallScore, mode := r.mode
        confidence := scoring.confidence, createdAt := 0 } now)

end Between

/-! ## What the columns hold -/

/-- What `_persist_scores` needs of the stages: no conversion raises. -/
structure Convertible (h : Handler Value) (stages : Completed (Fields Value)) : Prop where
  scores : ∀ aspect ∈ aspects, ∀ v, field stages aspect "score" = some v →
    h.conversions.float v ≠ none
  pianoRoll : ∀ v, field stages "pitch" "piano_roll" = some v → h.conversions.pianoRoll v ≠ none
  userPitch : ∀ v, field stages "pitch" "user_pitch_curve" = some v →
    h.conversions.pitchCurve v ≠ none
  scoring : ∀ data, aggregateData stages = some data → h.conversions.scoring data ≠ none

theorem Convertible.pruned (hc : Convertible h stages) : Convertible h (prune stages) where
  scores aspect haspect v hv := by
    rw [field_prune_score] at hv
    exact hc.scores aspect haspect v hv
  pianoRoll v hv := by
    rw [field_prune, if_pos (by decide)] at hv
    cases hv
  userPitch v hv := by
    rw [field_prune, if_pos (by decide)] at hv
    cases hv
  scoring data hdata := by
    rw [aggregateData_prune] at hdata
    exact hc.scoring data hdata

/-- A column holds what a value is converted to, where there is one. -/
def Stored {α β : Type} (value : Option α) (convert : α → Option β) (column : Option β) : Prop :=
  ∀ v, value = some v → ∃ converted, convert v = some converted ∧ column = some converted

theorem Stored.or {α β : Type} {value : Option α} {convert : α → Option β} {column : Option β}
    (hs : Stored value convert column) : (value.bind convert).or column = column := by
  cases value with
  | none => rfl
  | some v =>
    obtain ⟨converted, hconvert, hcolumn⟩ := hs v rfl
    rw [Option.bind_some, hconvert, hcolumn]
    rfl

theorem stored_none {α β : Type} {value : Option α} {convert : α → Option β} {column : Option β}
    (hvalue : value = none) : Stored value convert column := by
  intro v hv
  rw [hvalue] at hv
  cases hv

theorem stored_some {α β : Type} {value : Option α} {convert : α → Option β} {column : Option β}
    {converted : β} (hvalue : value.bind convert = some converted) (hcolumn : column = some converted) :
    Stored value convert column := by
  intro v hv
  rw [hv] at hvalue
  exact ⟨converted, hvalue, hcolumn⟩

theorem Stored.ne_none {α β : Type} {value : Option α} {convert : α → Option β} {column : Option β}
    (hs : Stored value convert column) (v : α) (hv : value = some v) : convert v ≠ none := by
  obtain ⟨converted, hconvert, -⟩ := hs v hv
  rw [hconvert]
  exact Option.some_ne_none _

/-- What `_persist_scores` has done when it returns. -/
structure Persisted (h : Handler Value) (id : AnalysisId) (r : Row Value) (t : Snapshots Value) :
    Prop where
  scores : ∀ aspect ∈ aspects, Stored (field r.stages aspect "score") h.conversions.float
    (r.scores aspect)
  pianoRoll : Stored (field r.stages "pitch" "piano_roll") h.conversions.pianoRoll r.pitchCurveJson
  userPitch : Stored (field r.stages "pitch" "user_pitch_curve") h.conversions.pitchCurve r.userPitch
  scoring : Stored (aggregateData r.stages) h.conversions.scoring r.scoring
  snapshots : r.targetSnapshots h id t = Snapshots.untime id t

theorem Persisted.convertible (hp : Persisted h id r t) : Convertible h r.stages where
  scores aspect haspect := (hp.scores aspect haspect).ne_none
  pianoRoll := hp.pianoRoll.ne_none
  userPitch := hp.userPitch.ne_none
  scoring := hp.scoring.ne_none

/-- The pruned fields are in the columns. -/
theorem Persisted.pruned (hp : Persisted h id r t) : Persisted h id r.pruneDenseStageFields t where
  scores aspect haspect := by
    have hfield : field r.pruneDenseStageFields.stages aspect "score" = field r.stages aspect "score" :=
      field_prune_score _ _
    rw [hfield]
    exact hp.scores aspect haspect
  pianoRoll v hv := by
    have hgone : field r.pruneDenseStageFields.stages "pitch" "piano_roll" = none := by
      rw [Row.pruneDenseStageFields, field_prune, if_pos (by decide)]
    rw [hgone] at hv
    cases hv
  userPitch v hv := by
    have hgone : field r.pruneDenseStageFields.stages "pitch" "user_pitch_curve" = none := by
      rw [Row.pruneDenseStageFields, field_prune, if_pos (by decide)]
    rw [hgone] at hv
    cases hv
  scoring := by
    have hdata : aggregateData r.pruneDenseStageFields.stages = aggregateData r.stages :=
      aggregateData_prune _
    rw [hdata]
    exact hp.scoring
  snapshots := by
    have hsnapshot : r.pruneDenseStageFields.snapshot h id 0 = r.snapshot h id 0 := by
      have hdata : aggregateData r.pruneDenseStageFields.stages = aggregateData r.stages :=
        aggregateData_prune _
      rw [Row.snapshot, hdata]
      rfl
    rw [← hp.snapshots, Row.targetSnapshots, hsnapshot, Row.targetSnapshots]

/-- **Nothing is lost when the stages are pruned.** -/
theorem Between.pruned (hb : Between h id base baseTable r t) (hp : Persisted h id r t) :
    Between h id base baseTable r.pruneDenseStageFields t where
  stages := by
    rcases hb.stages with hsame | hpruned
    · exact Or.inr (congrArg prune hsame)
    · refine Or.inr ?_
      rw [Row.pruneDenseStageFields, hpruned, prune_prune]
  row := by
    rw [← hb.row]
    have hstages : r.pruneDenseStageFields.stages = prune r.stages := rfl
    unfold Row.target
    rw [hstages, prune_prune, aggregateData_prune]
    congr 1
    · funext aspect
      rw [field_prune_score]
      rfl
    · rw [hp.pianoRoll.or, field_prune, if_pos (by decide)]
      rfl
    · rw [hp.userPitch.or, field_prune, if_pos (by decide)]
      rfl
  snapshots := by
    rw [← hb.snapshots, hp.snapshots, hp.pruned.snapshots]

/-- What is left up to timestamps once `mark_done` has run. -/
theorem Persisted.untime_markDone (hp : Persisted h id r t) (hpruned : prune r.stages = r.stages)
    (now : Time) : (r.markDone h.modelVersions now).untime = r.target h := by
  have hscores : (fun aspect =>
      if aspect ∈ aspects then
        ((field r.stages aspect "score").bind h.conversions.float).or (r.scores aspect)
      else r.scores aspect) = r.scores := by
    funext aspect
    by_cases haspect : aspect ∈ aspects
    · rw [if_pos haspect, (hp.scores aspect haspect).or]
    · rw [if_neg haspect]
  rw [Row.target, hpruned, hscores, hp.pianoRoll.or, hp.userPitch.or, hp.scoring.or]
  rfl

end VocalCoach.Pipeline.Completion
