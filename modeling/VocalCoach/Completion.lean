/-
# Completing an analysis

`queue/handler.py`: `AnalysisJobHandler.handle` with the statements of
`PostgresAnalysisRepository` it runs, and the `process_entry` of `queue/consumer.py` around
it.

A `Delivery` is one time the worker is handed the entry.  The process may die before any of
its statements; an exception leaves the entry pending like a death does.  `Value` is what a
field of a stage's data holds, and `Conversions` are the Python conversions of such values,
which may raise.  The events of single stages, which only the web socket sees, are in the
`Report` of a run and are not repeated here.
-/
import VocalCoach.Programs
import VocalCoach.Records
import VocalCoach.Runner

namespace VocalCoach.Pipeline.Completion

open Program

/-- A JSON object. -/
abbrev Fields (Value : Type) := String → Option Value

variable {Value : Type}

/-! ## The database -/

/-- What `save_scoring_result` writes. -/
structure Scoring (Value : Type) where
  overallScore : Value
  feedbackText : Value
  scoringVersion : Value
  weightsProfile : Value
  effectiveMode : Value
  confidence : Value
  aspectConfidence : Value
  warnings : Value
  unavailableAspects : Value
  keyShiftSemitones : Value
  accompanimentLevel : Value
  voicedRatio : Value
  alignmentCost : Value

/-- A row of `analyses`. -/
structure Row (Value : Type) where
  userId : UserId
  songId : SongId
  status : AnalysisStatus
  mode : Mode
  allowTransposition : Bool
  locale : String
  /-- `stages_json`. -/
  stages : Completed (Fields Value)
  queuePosition : Option ℕ := none
  currentStage : Option String := none
  currentStageIndex : Option ℕ := none
  totalStages : Option ℕ := none
  currentStageStartedAt : Option Time := none
  /-- `pitch_score` and the others, by aspect. -/
  scores : String → Option Value := fun _ => none
  pitchCurveJson : Option Value := none
  /-- `user_pitch` and `user_pitch_meta`. -/
  userPitch : Option Value := none
  scoring : Option (Scoring Value) := none
  modelVersions : Option (List (String × String)) := none
  errorCode : Option String := none
  completedAt : Option Time := none

/-- A row of `progress_snapshots`. -/
structure Snapshot (Value : Type) where
  userId : UserId
  analysisId : AnalysisId
  overallScore : Value
  mode : Mode
  confidence : Value
  createdAt : Time
  deriving DecidableEq, Repr

/-- `progress_snapshots`, with its constraint `UNIQUE (analysis_id)`. -/
abbrev Snapshots (Value : Type) :=
  { rows : List (Snapshot Value) // (rows.map Snapshot.analysisId).Nodup }

/-- The columns of a row of `songs` that an analysis reads. -/
structure Song (Value : Type) where
  vocalStemPath : Option String
  referencePitch : Option Value
  lyrics : Option Value

structure Database (Value : Type) where
  analyses : AnalysisId → Option (Row Value)
  songs : SongId → Option (Song Value)
  snapshots : Snapshots Value

/-! ## The statements -/

/-- `ASPECTS`. -/
def aspects : List String := ["pitch", "rhythm", "breath", "dynamics", "vibrato", "timbre"]

/-- The fields `prune_dense_stage_fields` removes from the data of `pitch`. -/
def denseFields : List String := ["user_pitch_curve", "reference_pitch_curve", "piano_roll"]

/-- `stages_json #- '{pitch,data,...}'`. -/
def prune (stages : Completed (Fields Value)) : Completed (Fields Value) :=
  Function.update stages "pitch" ((stages "pitch").map fun r =>
    { r with data := r.data.map fun data key => if key ∈ denseFields then none else data key })

namespace Row

def markProcessing (firstStage : String) (stageIndex totalStages : ℕ) (now : Time)
    (r : Row Value) : Row Value :=
  { r with
    status := .processing
    currentStage := some firstStage
    currentStageIndex := some stageIndex
    totalStages := some totalStages
    currentStageStartedAt := some now
    queuePosition := none }

def saveStageProgress (p : Progress (Fields Value)) (now : Time) (r : Row Value) : Row Value :=
  { r with
    stages := Function.update r.stages p.result.stage (some p.result)
    currentStage := p.nextStage
    currentStageIndex := p.nextStageIndex
    totalStages := some p.totalStages
    currentStageStartedAt := if p.nextStage.isSome then some now else none }

def saveAspectScore (aspect : String) (score : Value) (r : Row Value) : Row Value :=
  { r with scores := Function.update r.scores aspect (some score) }

def savePianoRoll (data : Value) (r : Row Value) : Row Value :=
  { r with pitchCurveJson := some data }

def saveUserPitchCurve (curve : Value) (r : Row Value) : Row Value :=
  { r with userPitch := some curve }

def pruneDenseStageFields (r : Row Value) : Row Value := { r with stages := prune r.stages }

def saveScoringResult (scoring : Scoring Value) (r : Row Value) : Row Value :=
  { r with scoring := some scoring }

def markDone (modelVersions : List (String × String)) (now : Time) (r : Row Value) : Row Value :=
  { r with
    status := .done
    currentStage := none
    currentStageIndex := none
    totalStages := none
    currentStageStartedAt := none
    queuePosition := none
    modelVersions := some modelVersions
    completedAt := some now }

def markFailed (errorCode : String) (now : Time) (r : Row Value) : Row Value :=
  { r with
    status := .failed
    errorCode := some errorCode
    currentStage := none
    currentStageIndex := none
    totalStages := none
    currentStageStartedAt := none
    queuePosition := none
    completedAt := some now }

end Row

/-- What `ON CONFLICT (analysis_id) DO UPDATE` does to a row. -/
def Snapshot.merge (s : Snapshot Value) (row : Snapshot Value) : Snapshot Value :=
  if row.analysisId = s.analysisId then
    { row with
      overallScore := s.overallScore
      mode := s.mode
      confidence := s.confidence
      createdAt := s.createdAt }
  else row

@[simp] theorem Snapshot.merge_analysisId (s row : Snapshot Value) :
    (s.merge row).analysisId = row.analysisId := by
  unfold Snapshot.merge
  split <;> rfl

/-- `INSERT ... ON CONFLICT (analysis_id) DO UPDATE`. -/
def Snapshots.upsert (t : Snapshots Value) (s : Snapshot Value) : Snapshots Value :=
  if h : s.analysisId ∈ t.val.map Snapshot.analysisId then
    ⟨t.val.map s.merge, by
      have hids : (t.val.map s.merge).map Snapshot.analysisId = t.val.map Snapshot.analysisId := by
        simp [Function.comp_def]
      rw [hids]
      exact t.property⟩
  else
    ⟨t.val ++ [s], by
      rw [List.map_append, List.nodup_append]
      refine ⟨t.property, List.pairwise_singleton _ _, ?_⟩
      intro a ha b hb heq
      rw [List.mem_singleton.mp hb] at heq
      exact h (heq ▸ ha)⟩

namespace Database

/-- `UPDATE analyses SET ... WHERE id = %s`. -/
def updateAnalysis (db : Database Value) (id : AnalysisId) (f : Row Value → Row Value) :
    Database Value :=
  { db with analyses := Function.update db.analyses id ((db.analyses id).map f) }

/-- `record_progress_snapshot`. -/
def recordProgressSnapshot (db : Database Value) (s : Snapshot Value) : Database Value :=
  { db with snapshots := db.snapshots.upsert s }

end Database

/-! ## The worker -/

/-- The Python conversions of a value; `none` is an exception. -/
structure Conversions (Value : Type) where
  float : Value → Option Value
  /-- `float(x) if x is not None else None`. -/
  optionalFloat : Value → Option Value
  str : Value → Option Value
  dict : Value → Option Value
  list : Value → Option Value
  /-- `PianoRollData.model_validate`. -/
  pianoRoll : Value → Option Value
  /-- `PitchCurve.model_validate`. -/
  pitchCurve : Value → Option Value

/-- The arguments of `save_scoring_result`, from the data of `aggregate`. -/
def Conversions.scoring (k : Conversions Value) (data : Fields Value) : Option (Scoring Value) := do
  let overallScore ← (data "overall_score").bind k.float
  let confidence ← (data "confidence").bind k.str
  let keyShiftSemitones ← (data "key_shift_semitones").bind k.optionalFloat
  let feedbackText ← (data "feedback_text").bind k.str
  let scoringVersion ← (data "scoring_version").bind k.str
  let weightsProfile ← (data "weights_profile").bind k.str
  let effectiveMode ← (data "effective_mode").bind k.str
  let aspectConfidence ← (data "aspect_confidence").bind k.dict
  let warnings ← (data "warnings").bind k.list
  let unavailableAspects ← (data "unavailable_aspects").bind k.dict
  let accompanimentLevel ← (data "accompaniment_level").bind k.float
  let voicedRatio ← (data "voiced_ratio").bind k.float
  let alignmentCost ← (data "alignment_cost").bind k.float
  pure
    { overallScore, feedbackText, scoringVersion, weightsProfile, effectiveMode, confidence,
      aspectConfidence, warnings, unavailableAspects, keyShiftSemitones, accompanimentLevel,
      voicedRatio, alignmentCost }

/-- What `_build_context` puts together. -/
structure Job (Value : Type) where
  analysisId : AnalysisId
  userId : UserId
  songId : SongId
  referenceVocalStemPath : String
  referencePitch : Value
  referenceLyrics : Option Value
  mode : Mode
  allowTransposition : Bool
  locale : String

/-- What a handler is made with. -/
structure Handler (Value : Type) where
  stages : List (Entry (Job Value) (Fields Value))
  conversions : Conversions Value
  modelVersions : List (String × String)

/-- One time the entry is handed to a worker: when each statement runs, which one the process
dies before, which executions of stages fail, and when it is asked to stop. -/
structure Delivery where
  time : ℕ → Time := id
  diesAt : Option ℕ := none
  fails : Failures := fun _ _ => none
  stops : ℕ → Bool := fun _ => false

inductive Event
  | done (analysis : AnalysisId)
  | failed (analysis : AnalysisId) (errorCode message : String)
  deriving DecidableEq, Repr

/-- The database, the files of the analyses, what was published, and the entry.  `clock` counts
the statements of the current delivery. -/
structure World (Value : Type) where
  db : Database Value
  workDirs : List AnalysisId := []
  recordings : List AnalysisId := []
  published : List Event := []
  acknowledged : Bool := false
  removed : Bool := false
  clock : ℕ := 0

section Statements

variable (d : Delivery)

/-- One statement. -/
def operate {α : Type} (f : Time → World Value → α × World Value) : Prog (World Value) α := fun w =>
  if d.diesAt = some w.clock then (none, w)
  else
    let (a, t) := f (d.time w.clock) w
    (some a, { t with clock := w.clock + 1 })

/-- An exception, where there is no value. -/
def require {σ α : Type} : Option α → Prog σ α
  | some a => pure a
  | none => fun s => (none, s)

def query {α : Type} (f : Database Value → α) : Prog (World Value) α :=
  operate d fun _ w => (f w.db, w)

def execute (f : Time → Database Value → Database Value) : Prog (World Value) Unit :=
  operate d fun now w => ((), { w with db := f now w.db })

def updateAnalysis (id : AnalysisId) (f : Time → Row Value → Row Value) : Prog (World Value) Unit :=
  execute d fun now db => db.updateAnalysis id (f now)

/-- `get_by_id`. -/
def getById (id : AnalysisId) : Prog (World Value) (Row Value) := do
  let row ← query d fun db => db.analyses id
  require row

def publish (e : Event) : Prog (World Value) Unit :=
  operate d fun _ w => ((), { w with published := w.published ++ [e] })

end Statements

/-! ## `AnalysisJobHandler` -/

variable (h : Handler Value) (d : Delivery) (id : AnalysisId)

/-- `_build_context`. -/
def buildContext (analysis : Row Value) : Prog (World Value) (Context (Job Value) (Fields Value)) := do
  let found ← query d fun db => db.songs analysis.songId
  let song ← require found
  let referenceVocalStemPath ← require song.vocalStemPath
  let referencePitch ← require song.referencePitch
  pure
    { job :=
        { analysisId := id
          userId := analysis.userId
          songId := analysis.songId
          referenceVocalStemPath
          referencePitch
          referenceLyrics := song.lyrics
          mode := analysis.mode
          allowTransposition := analysis.allowTransposition
          locale := analysis.locale }
      completed := fun _ => none }

def saveEach : List (Progress (Fields Value)) → Prog (World Value) Unit
  | [] => pure ()
  | p :: saved => do
      updateAnalysis d id (Row.saveStageProgress p)
      saveEach saved

/-- `mark_processing`, where there is a stage to run. -/
def markFirst : Option (String × ℕ × ℕ) → Prog (World Value) Unit
  | none => pure ()
  | some (firstStage, stageIndex, totalStages) =>
      updateAnalysis d id (Row.markProcessing firstStage stageIndex totalStages)

/-- `handle` up to where the runner returns or raises. -/
def attempt : Prog (World Value) Outcome := do
  let analysis ← getById d id
  let context ← buildContext d id analysis
  let report := run h.stages context analysis.stages d.fails d.stops (some analysis.mode)
  markFirst d id report.marked
  saveEach d id report.saved
  pure report.outcome

/-- A field of the data of a stage. -/
def field (stages : Completed (Fields Value)) (stage key : String) : Option Value := do
  let r ← stages stage
  let data ← r.data
  data key

/-- What is saved of a field, where the field is there. -/
def saveField (value : Option Value) (convert : Value → Option Value)
    (save : Value → Row Value → Row Value) : Prog (World Value) Unit :=
  match value with
  | none => pure ()
  | some v => do
      let converted ← require (convert v)
      updateAnalysis d id fun _ => save converted

/-- The loop over `ASPECTS`. -/
def saveAspects (stages : Completed (Fields Value)) : List String → Prog (World Value) Unit
  | [] => pure ()
  | aspect :: rest => do
      saveField d id (field stages aspect "score") h.conversions.float (Row.saveAspectScore aspect)
      saveAspects stages rest

/-- The data of `aggregate`, if it has run. -/
def aggregateData (stages : Completed (Fields Value)) : Option (Fields Value) :=
  (stages "aggregate").map fun r => r.data.getD fun _ => none

/-- What is saved of the result of `aggregate`. -/
def saveScoring (record : Row Value) : Prog (World Value) Unit :=
  match aggregateData record.stages with
  | none => pure ()
  | some data => do
      let scoring ← require (h.conversions.scoring data)
      updateAnalysis d id fun _ => Row.saveScoringResult scoring
      execute d fun now db => db.recordProgressSnapshot
        { userId := record.userId
          analysisId := id
          overallScore := scoring.overallScore
          mode := record.mode
          confidence := scoring.confidence
          createdAt := now }

/-- `_persist_scores`. -/
def persistScores : Prog (World Value) Unit := do
  let record ← getById d id
  saveAspects h d id record.stages aspects
  saveField d id (field record.stages "pitch" "piano_roll") h.conversions.pianoRoll Row.savePianoRoll
  saveField d id (field record.stages "pitch" "user_pitch_curve") h.conversions.pitchCurve
    Row.saveUserPitchCurve
  saveScoring h d id record

/-- `_cleanup` of an analysis that is done. -/
def cleanup : Prog (World Value) Unit := do
  operate d fun _ w => ((), { w with workDirs := w.workDirs.filter (· ≠ id) })
  operate d fun _ w => ((), { w with recordings := w.recordings.filter (· ≠ id) })

/-- `handle` once the run has completed. -/
def finish : Prog (World Value) Unit := do
  persistScores h d id
  updateAnalysis d id fun _ => Row.pruneDenseStageFields
  updateAnalysis d id (Row.markDone h.modelVersions)
  publish d (.done id)
  cleanup d id

/-- `handle` once the runner has returned or raised: whether the entry is over. -/
def conclude : Outcome → Prog (World Value) Bool
  | .raised e => do
      updateAnalysis d id (Row.markFailed e.errorCode)
      publish d (.failed id e.errorCode e.message)
      pure true
  | .interrupted => pure false
  | .completed => do
      finish h d id
      pure true

/-- `handle`. -/
def handle : Prog (World Value) Bool := do
  let outcome ← attempt h d id
  conclude h d id outcome

/-- What `process_entry` does with what `handle` returns; `_ack_and_remove` where the entry is
over. -/
def ackAndRemove (terminal : Bool) : Prog (World Value) Unit :=
  if terminal then do
    operate d fun _ w => ((), { w with acknowledged := true })
    operate d fun _ w => ((), { w with removed := true })
  else pure ()

/-- `process_entry`. -/
def processEntry : Prog (World Value) Unit := do
  let terminal ← handle h d id
  ackAndRemove d terminal

/-- The entry is handed to a worker, unless it has been acknowledged. -/
def deliver (w : World Value) : World Value :=
  if w.acknowledged then w else (processEntry h d id { w with clock := 0 }).2

/-- One delivery after the other. -/
def deliverAll (deliveries : List Delivery) (w : World Value) : World Value :=
  deliveries.foldl (fun w d => deliver h d id w) w

end VocalCoach.Pipeline.Completion
