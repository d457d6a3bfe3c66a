/-
# The two tables

Models the rows of `analyses` and `songs` (migrations 00004 to 00012) and every
statement the API's `AnalysisRepository`/`SongRepository` and the worker's
`PostgresAnalysisRepository`/`PostgresSongRepository` run on them, one transaction a
definition.  A table is the list of its rows; `UPDATE ... WHERE` is
`Database.updateAnalyses`.  UUIDs, stream entry ids and times are numbers.

Columns that carry scores, curves and texts are left out: no statement here reads them.
`stages`/`prepStages` keep the keys of `stages_json`/`prep_stages_json`, which is what
resuming reads.
-/
import Mathlib.Data.Nat.Notation
import Mathlib.Data.List.Basic

namespace VocalCoach

abbrev UserId := ℕ

abbrev SongId := ℕ

abbrev AnalysisId := ℕ

/-- A Redis stream entry id. -/
abbrev EntryId := ℕ

abbrev Time := ℕ

/-- `domain.AnalysisStatus`. -/
inductive AnalysisStatus
  | queued
  | waitingForReference
  | processing
  | done
  | failed
  | canceled
  deriving DecidableEq, Repr

/-- `domain.SongPrepStatus`. -/
inductive SongPrepStatus
  | pending
  | processing
  | ready
  | failed
  deriving DecidableEq, Repr

/-- `domain.AnalysisMode`. -/
inductive AnalysisMode
  | clean
  | mixed
  deriving DecidableEq, Repr

/-- A row of `analyses`. -/
structure Analysis where
  id : AnalysisId
  userId : UserId
  songId : SongId
  status : AnalysisStatus
  mode : AnalysisMode
  queueSeq : ℕ
  queuedAt : Time
  queuePosition : Option ℕ := none
  queueStreamId : Option EntryId := none
  stages : List String := []
  currentStage : Option String := none
  currentStageIndex : Option ℕ := none
  totalStages : Option ℕ := none
  currentStageStartedAt : Option Time := none
  errorCode : Option String := none
  completedAt : Option Time := none
  deriving DecidableEq, Repr

/-- A row of `songs`.  `referenceCached`: `vocal_stem_path` and `reference_pitch` are set. -/
structure Song where
  id : SongId
  prepStatus : SongPrepStatus := .pending
  prepStage : Option String := none
  prepErrorCode : Option String := none
  prepStages : List String := []
  referenceCached : Bool := false
  preparedAt : Option Time := none
  deriving DecidableEq, Repr

/-- `Song.ReadyForAnalysis`. -/
def Song.readyForAnalysis (song : Song) : Bool := song.prepStatus = .ready

/-! ## What the `SET` clauses do to a row -/

namespace Analysis

/-- `SetQueueStreamID`. -/
def withStreamId (entry : EntryId) (a : Analysis) : Analysis :=
  { a with queueStreamId := some entry }

/-- `Cancel`. -/
def canceled (a : Analysis) : Analysis :=
  { a with status := .canceled, queuePosition := none }

/-- `Retry` and `RetryToWaitingForReference`, which differ in the status only. -/
def retried (status : AnalysisStatus) (queueSeq : ℕ) (now : Time) (a : Analysis) : Analysis :=
  { a with
    status := status
    errorCode := none
    currentStage := none
    currentStageIndex := none
    totalStages := none
    currentStageStartedAt := none
    queueStreamId := none
    queuePosition := none
    queueSeq := queueSeq
    queuedAt := now }

/-- `RecalculatePositions`. -/
def atPosition (position : ℕ) (a : Analysis) : Analysis :=
  { a with queuePosition := some position }

/-- `mark_processing`. -/
def processing (firstStage : String) (stageIndex totalStages : ℕ) (now : Time)
    (a : Analysis) : Analysis :=
  { a with
    status := .processing
    currentStage := some firstStage
    currentStageIndex := some stageIndex
    totalStages := some totalStages
    currentStageStartedAt := some now
    queuePosition := none }

/-- `save_stage_progress`. -/
def withProgress (stage : String) (nextStage : Option String) (nextStageIndex : Option ℕ)
    (totalStages : ℕ) (now : Time) (a : Analysis) : Analysis :=
  { a with
    stages := if stage ∈ a.stages then a.stages else a.stages ++ [stage]
    currentStage := nextStage
    currentStageIndex := nextStageIndex
    totalStages := some totalStages
    currentStageStartedAt := if nextStage.isSome then some now else none }

/-- `mark_done`. -/
def completed (now : Time) (a : Analysis) : Analysis :=
  { a with
    status := .done
    currentStage := none
    currentStageIndex := none
    totalStages := none
    currentStageStartedAt := none
    queuePosition := none
    completedAt := some now }

/-- `mark_failed`. -/
def failedWith (errorCode : String) (now : Time) (a : Analysis) : Analysis :=
  { a with
    status := .failed
    errorCode := some errorCode
    currentStage := none
    currentStageIndex := none
    totalStages := none
    currentStageStartedAt := none
    queuePosition := none
    completedAt := some now }

/-- The first update of `wake_waiting_for_reference`. -/
def woken (a : Analysis) : Analysis := { a with status := .queued }

/-- `fail_waiting_for_reference`. -/
def failedWaiting (errorCode : String) (now : Time) (a : Analysis) : Analysis :=
  { a with status := .failed, errorCode := some errorCode, completedAt := some now }

/-! ### The `WHERE` clauses -/

/-- The rows `Cancel` may move. -/
def cancelable (id : AnalysisId) (userId : UserId) (a : Analysis) : Bool :=
  a.id = id ∧ a.userId = userId ∧ (a.status = .queued ∨ a.status = .waitingForReference)

/-- The rows `Retry` and `RetryToWaitingForReference` may move. -/
def retryable (id : AnalysisId) (userId : UserId) (a : Analysis) : Bool :=
  a.id = id ∧ a.userId = userId ∧ a.status = .failed

/-- The rows that wait for the reference of a song. -/
def waitingFor (songId : SongId) (a : Analysis) : Bool :=
  a.songId = songId ∧ a.status = .waitingForReference

end Analysis

namespace Song

/-- `RetryPrep`. -/
def restarted (s : Song) : Song :=
  { s with prepStatus := .pending, prepErrorCode := none, prepStage := none }

/-- `mark_prep_processing`. -/
def processing (firstStage : String) (s : Song) : Song :=
  { s with prepStatus := .processing, prepStage := some firstStage }

/-- `save_prep_stage_progress`. -/
def withProgress (stage : String) (nextStage : Option String) (s : Song) : Song :=
  { s with
    prepStages := if stage ∈ s.prepStages then s.prepStages else s.prepStages ++ [stage]
    prepStage := nextStage }

/-- `mark_prep_ready`. -/
def prepared (now : Time) (s : Song) : Song :=
  { s with
    prepStatus := .ready
    prepStage := none
    prepErrorCode := none
    referenceCached := true
    preparedAt := some now }

/-- `mark_prep_failed`. -/
def failedWith (errorCode : String) (s : Song) : Song :=
  { s with prepStatus := .failed, prepErrorCode := some errorCode, prepStage := none }

end Song

/-! ## The statements -/

/-- Both tables and the sequence behind `queue_seq`. -/
structure Database where
  analyses : List Analysis := []
  songs : List Song := []
  nextSeq : ℕ := 0
  deriving DecidableEq, Repr

namespace Database

/-- `SELECT ... FROM analyses WHERE id = $1`. -/
def analysis (db : Database) (id : AnalysisId) : Option Analysis :=
  db.analyses.find? fun a => a.id = id

/-- `SELECT ... FROM songs WHERE id = $1`. -/
def song (db : Database) (id : SongId) : Option Song :=
  db.songs.find? fun s => s.id = id

/-- `UPDATE analyses SET f WHERE p`. -/
def updateAnalyses (p : Analysis → Bool) (f : Analysis → Analysis) (db : Database) : Database :=
  { db with analyses := db.analyses.map fun a => if p a then f a else a }

/-- `UPDATE songs SET f WHERE p`. -/
def updateSongs (p : Song → Bool) (f : Song → Song) (db : Database) : Database :=
  { db with songs := db.songs.map fun s => if p s then f s else s }

/-! ### `AnalysisRepository` (Go) -/

/-- `Create`. -/
def create (id : AnalysisId) (userId : UserId) (songId : SongId) (status : AnalysisStatus)
    (mode : AnalysisMode) (now : Time) (db : Database) : Database :=
  { db with
    analyses := db.analyses ++ [{ id, userId, songId, status, mode, queueSeq := db.nextSeq,
                                  queuedAt := now }]
    nextSeq := db.nextSeq + 1 }

/-- `Delete`. -/
def delete (id : AnalysisId) (db : Database) : Database :=
  { db with analyses := db.analyses.filter fun a => a.id ≠ id }

/-- `SetQueueStreamID`. -/
def setQueueStreamId (id : AnalysisId) (entry : EntryId) (db : Database) : Database :=
  db.updateAnalyses (fun a => a.id = id) (Analysis.withStreamId entry)

/-- `Cancel`. -/
def cancel (id : AnalysisId) (userId : UserId) (db : Database) : Database :=
  db.updateAnalyses (Analysis.cancelable id userId) Analysis.canceled

/-- The update of `Retry` and `RetryToWaitingForReference`; `nextval` is drawn for a
matching row. -/
def retryAs (status : AnalysisStatus) (id : AnalysisId) (userId : UserId) (now : Time)
    (db : Database) : Database :=
  { db.updateAnalyses (Analysis.retryable id userId) (Analysis.retried status db.nextSeq now) with
    nextSeq := if db.analyses.any (Analysis.retryable id userId) then db.nextSeq + 1
      else db.nextSeq }

/-- `Retry`. -/
def retry (id : AnalysisId) (userId : UserId) (now : Time) (db : Database) : Database :=
  db.retryAs .queued id userId now

/-- `RetryToWaitingForReference`. -/
def retryToWaitingForReference (id : AnalysisId) (userId : UserId) (now : Time)
    (db : Database) : Database :=
  db.retryAs .waitingForReference id userId now

/-- `ROW_NUMBER() OVER (ORDER BY queue_seq)` among the queued rows. -/
def rowNumber (db : Database) (a : Analysis) : ℕ :=
  db.analyses.countP (fun b => b.status = .queued ∧ b.queueSeq < a.queueSeq) + 1

/-- `RecalculatePositions`. -/
def recalculatePositions (db : Database) : Database :=
  db.updateAnalyses (fun a => a.status = .queued) fun a => a.atPosition (db.rowNumber a)

/-- The rows `RecalculatePositions` returns: those whose position changes. -/
def changedPositions (db : Database) : List (AnalysisId × ℕ) :=
  (db.analyses.filter fun a =>
      a.status = .queued ∧ a.queuePosition ≠ some (db.rowNumber a)).map fun a =>
    (a.id, db.rowNumber a)

/-! ### `PostgresAnalysisRepository` (Python) -/

/-- `mark_processing`. -/
def markProcessing (id : AnalysisId) (firstStage : String) (stageIndex totalStages : ℕ)
    (now : Time) (db : Database) : Database :=
  db.updateAnalyses (fun a => a.id = id)
    (Analysis.processing firstStage stageIndex totalStages now)

/-- `save_stage_progress`. -/
def saveStageProgress (id : AnalysisId) (stage : String) (nextStage : Option String)
    (nextStageIndex : Option ℕ) (totalStages : ℕ) (now : Time) (db : Database) : Database :=
  db.updateAnalyses (fun a => a.id = id)
    (Analysis.withProgress stage nextStage nextStageIndex totalStages now)

/-- `mark_done`. -/
def markDone (id : AnalysisId) (now : Time) (db : Database) : Database :=
  db.updateAnalyses (fun a => a.id = id) (Analysis.completed now)

/-- `mark_failed`. -/
def markFailed (id : AnalysisId) (errorCode : String) (now : Time) (db : Database) : Database :=
  db.updateAnalyses (fun a => a.id = id) (Analysis.failedWith errorCode now)

/-- The ids `wake_waiting_for_reference` moves out of waiting, in table order. -/
def newlyQueued (db : Database) (songId : SongId) : List AnalysisId :=
  (db.analyses.filter (Analysis.waitingFor songId)).map Analysis.id

/-- `wake_waiting_for_reference`: both updates, in one transaction. -/
def wakeWaitingForReference (songId : SongId) (db : Database) : Database :=
  (db.updateAnalyses (Analysis.waitingFor songId) Analysis.woken).recalculatePositions

/-- `fail_waiting_for_reference`. -/
def failWaitingForReference (songId : SongId) (errorCode : String) (now : Time)
    (db : Database) : Database :=
  db.updateAnalyses (Analysis.waitingFor songId) (Analysis.failedWaiting errorCode now)

/-! ### `songs` -/

/-- The row `GetOrCreate` inserts for content not seen before. -/
def createSong (id : SongId) (db : Database) : Database :=
  { db with songs := db.songs ++ [{ id }] }

/-- `Delete`; the analyses of the song go with it (`ON DELETE CASCADE`). -/
def deleteSong (id : SongId) (db : Database) : Database :=
  { db with
    songs := db.songs.filter fun s => s.id ≠ id
    analyses := db.analyses.filter fun a => a.songId ≠ id }

/-- `RetryPrep`. -/
def retryPrep (id : SongId) (db : Database) : Database :=
  db.updateSongs (fun s => s.id = id ∧ s.prepStatus = .failed) Song.restarted

/-- `mark_prep_processing`. -/
def markPrepProcessing (id : SongId) (firstStage : String) (db : Database) : Database :=
  db.updateSongs (fun s => s.id = id) (Song.processing firstStage)

/-- `save_prep_stage_progress`. -/
def savePrepStageProgress (id : SongId) (stage : String) (nextStage : Option String)
    (db : Database) : Database :=
  db.updateSongs (fun s => s.id = id) (Song.withProgress stage nextStage)

/-- `mark_prep_ready`. -/
def markPrepReady (id : SongId) (now : Time) (db : Database) : Database :=
  db.updateSongs (fun s => s.id = id) (Song.prepared now)

/-- `mark_prep_failed`. -/
def markPrepFailed (id : SongId) (errorCode : String) (db : Database) : Database :=
  db.updateSongs (fun s => s.id = id) (Song.failedWith errorCode)

end Database

/-! ## One transaction as data -/

/-- What a step of either program asks of Postgres. -/
inductive Statement
  | create (id : AnalysisId) (userId : UserId) (songId : SongId) (status : AnalysisStatus)
      (mode : AnalysisMode)
  | delete (id : AnalysisId)
  | setQueueStreamId (id : AnalysisId) (entry : EntryId)
  | cancel (id : AnalysisId) (userId : UserId)
  | retry (id : AnalysisId) (userId : UserId)
  | retryToWaitingForReference (id : AnalysisId) (userId : UserId)
  | recalculatePositions
  | markProcessing (id : AnalysisId) (firstStage : String) (stageIndex totalStages : ℕ)
  | saveStageProgress (id : AnalysisId) (stage : String) (nextStage : Option String)
      (nextStageIndex : Option ℕ) (totalStages : ℕ)
  | markDone (id : AnalysisId)
  | markFailed (id : AnalysisId) (errorCode : String)
  | wakeWaitingForReference (songId : SongId)
  | failWaitingForReference (songId : SongId) (errorCode : String)
  | createSong (id : SongId)
  | deleteSong (id : SongId)
  | retryPrep (id : SongId)
  | markPrepProcessing (id : SongId) (firstStage : String)
  | savePrepStageProgress (id : SongId) (stage : String) (nextStage : Option String)
  | markPrepReady (id : SongId)
  | markPrepFailed (id : SongId) (errorCode : String)
  deriving DecidableEq, Repr

/-- The tables after a committed transaction. -/
def Statement.run (now : Time) (db : Database) : Statement → Database
  | .create id userId songId status mode => db.create id userId songId status mode now
  | .delete id => db.delete id
  | .setQueueStreamId id entry => db.setQueueStreamId id entry
  | .cancel id userId => db.cancel id userId
  | .retry id userId => db.retry id userId now
  | .retryToWaitingForReference id userId => db.retryToWaitingForReference id userId now
  | .recalculatePositions => db.recalculatePositions
  | .markProcessing id firstStage stageIndex totalStages =>
      db.markProcessing id firstStage stageIndex totalStages now
  | .saveStageProgress id stage nextStage nextStageIndex totalStages =>
      db.saveStageProgress id stage nextStage nextStageIndex totalStages now
  | .markDone id => db.markDone id now
  | .markFailed id errorCode => db.markFailed id errorCode now
  | .wakeWaitingForReference songId => db.wakeWaitingForReference songId
  | .failWaitingForReference songId errorCode => db.failWaitingForReference songId errorCode now
  | .createSong id => db.createSong id
  | .deleteSong id => db.deleteSong id
  | .retryPrep id => db.retryPrep id
  | .markPrepProcessing id firstStage => db.markPrepProcessing id firstStage
  | .savePrepStageProgress id stage nextStage => db.savePrepStageProgress id stage nextStage
  | .markPrepReady id => db.markPrepReady id now
  | .markPrepFailed id errorCode => db.markPrepFailed id errorCode

end VocalCoach
