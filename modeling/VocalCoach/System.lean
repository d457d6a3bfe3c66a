/-
# The API and the worker over Postgres and Redis

The running system: the two tables, the streams `analyses:run` and `songs:prep`, the API
requests in flight and the one worker process.  A step of the system is one transaction
or one Redis command of one of them, so every interleaving of the two programs and every
crash between two commands is a run.

A `Call` is where a request of the API stands, a `Worker` where the worker stands; what
each does next is `Call.plan` and `Worker.plan`, an `Effect` on the stores together with
where it stands afterwards.  How a pipeline entry ends is part of the action, as are the
order of a `RETURNING` batch, the passing of time and failures.
-/
import VocalCoach.Constants
import VocalCoach.Machine
import VocalCoach.Resumption
import VocalCoach.Streams
import VocalCoach.Tables

namespace VocalCoach

open RedisStream Resumption

/-! ## Redis commands as data -/

/-- What a step asks of one stream. -/
inductive Command (F : Type*)
  | xadd (fields : F)
  | xdel (id : EntryId)
  | xack (id : EntryId)
  | xreadgroup (consumer count : ℕ)
  | xclaim (consumer minIdle : ℕ) (id : EntryId)
  deriving DecidableEq, Repr

def Command.run {F : Type*} (now : Time) (s : Stream F) : Command F → Stream F
  | .xadd fields => s.xadd fields
  | .xdel id => s.xdel id
  | .xack id => s.xack id
  | .xreadgroup consumer count => s.xreadgroup consumer now count
  | .xclaim consumer minIdle id => s.xclaim consumer minIdle now id

/-! ## Where the parties stand -/

/-- The settings both programs read: the pipeline entries of `build_stages` that a mode
keeps (an entry is a stage or the members of a `ParallelGroup`), the entries of the cold
path, and the two stream limits. -/
structure Config where
  analysisEntries : AnalysisMode → List (List String)
  prepEntries : List (List String)
  queueMaxLength : ℕ
  prepQueueMaxLength : ℕ

/-- A request of the API in flight, by the store operation it does next. -/
inductive Call
  /-- `Enqueue` of a ready song, before its `XLEN` pre-check. -/
  | enqueueLength (userId : UserId) (songId : SongId) (mode : AnalysisMode)
  /-- `Enqueue` before `Create`, with the `songReady` it read. -/
  | enqueueCreate (userId : UserId) (songId : SongId) (mode : AnalysisMode) (songReady : Bool)
  /-- `Enqueue` before `EnqueueIfUnderLimit`. -/
  | enqueuePublish (id : AnalysisId)
  /-- `Enqueue` before the `Delete` that undoes a row the queue had no room for. -/
  | enqueueRollBack (id : AnalysisId)
  /-- `Retry` before it reads the song. -/
  | retrySong (userId : UserId) (id : AnalysisId) (songId : SongId)
  | retryWaiting (userId : UserId) (id : AnalysisId)
  | retryLength (userId : UserId) (id : AnalysisId)
  | retryUpdate (userId : UserId) (id : AnalysisId)
  | retryPublish (id : AnalysisId)
  /-- `Enqueue` or `Retry` before `SetQueueStreamID`. -/
  | setStreamId (id : AnalysisId) (entry : EntryId)
  /-- `Cancel` before `Remove`. -/
  | cancelRemove (id : AnalysisId) (entry : EntryId)
  /-- Any of the three before `RecalculatePositions`. -/
  | recalculate (id : AnalysisId)
  /-- `AddFromUpload`/`AddFromYouTube` of new content before `EnqueueIfUnderLimit`. -/
  | songPublish (songId : SongId)
  | songRollBack (songId : SongId)
  /-- `RetryPrep` after its `XLEN` pre-check. -/
  | prepRetryUpdate (songId : SongId)
  | prepRetryPublish (songId : SongId)
  deriving DecidableEq, Repr

/-- The worker process, by the store operation it does next. -/
inductive Worker
  | down
  /-- Between two jobs. -/
  | idle
  /-- `AnalysisJobHandler.handle` entered. -/
  | analysisRead (entry : EntryId) (id : AnalysisId)
  | analysisContext (entry : EntryId) (id : AnalysisId) (songId : SongId)
      (active remaining : List (List String))
  | analysisStart (entry : EntryId) (id : AnalysisId) (active remaining : List (List String))
  /-- In `PipelineRunner.run`: `saving` has run and is yet to be saved. -/
  | analysisRun (entry : EntryId) (id : AnalysisId) (active : List (List String))
      (saving : List String) (remaining : List (List String))
  | analysisFail (entry : EntryId) (id : AnalysisId) (errorCode : String) (givingUp : Bool)
  | analysisDone (entry : EntryId) (id : AnalysisId)
  | runAck (entry : EntryId)
  | runDel (entry : EntryId)
  /-- `SongPrepJobHandler.handle` entered. -/
  | prepRead (entry : EntryId) (songId : SongId)
  | prepStart (entry : EntryId) (songId : SongId) (remaining : List (List String))
  | prepRun (entry : EntryId) (songId : SongId) (saving : List String)
      (remaining : List (List String))
  | prepFail (entry : EntryId) (songId : SongId) (errorCode : String) (givingUp : Bool)
  | prepFailWaiting (entry : EntryId) (songId : SongId) (errorCode : String) (givingUp : Bool)
  | prepReady (entry : EntryId) (songId : SongId)
  | prepWake (entry : EntryId) (songId : SongId)
  /-- In `_wake_ready`: the woken ids yet to be appended to `analyses:run`. -/
  | prepAppend (entry : EntryId) (songId : SongId) (ids : List AnalysisId)
  | prepAck (entry : EntryId)
  | prepDel (entry : EntryId)
  deriving DecidableEq, Repr

/-- The state of the whole system.  `looping`: the worker is past its start-up reclaim. -/
structure World where
  db : Database := {}
  run : Stream AnalysisId := {}
  prep : Stream SongId := {}
  calls : List Call := []
  worker : Worker := .down
  consumer : ℕ := 0
  looping : Bool := false
  now : Time := 0
  nextUuid : ℕ := 0
  deriving DecidableEq, Repr

/-- A request as it arrives. -/
inductive Request
  | enqueue (userId : UserId) (songId : SongId) (mode : AnalysisMode)
  | retry (userId : UserId) (id : AnalysisId)
  | cancel (userId : UserId) (id : AnalysisId)
  | addSong
  | retryPrep (songId : SongId)
  deriving DecidableEq, Repr

inductive Action
  | request (r : Request)
  /-- A request does its next store operation. -/
  | advance (c : Call)
  /-- A request ends with an error where it stands. -/
  | abort (c : Call)
  | sleep (seconds : ℕ)
  | start (consumer : ℕ)
  | crash
  /-- The start-up reclaim of both streams is over. -/
  | enterLoop
  /-- `read_next` on `analyses:run`. -/
  | deliver
  /-- `claim_new_entries` on `songs:prep`. -/
  | claimPrep
  /-- `process_entry` of one of the worker's own pending `songs:prep` entries. -/
  | pickPrep (entry : EntryId)
  /-- `reclaim_stuck_jobs` on one pending entry. -/
  | reclaimRun (entry : EntryId)
  | reclaimPrep (entry : EntryId)
  /-- The worker does its next store operation. -/
  | work
  /-- `wake_waiting_for_reference`, whose batch comes back as `ids`. -/
  | wake (ids : List AnalysisId)
  /-- The next pipeline entry runs to its end. -/
  | entrySucceeds
  /-- The next pipeline entry raises a `PipelineError`. -/
  | entryFails (errorCode : String)
  /-- `should_stop` holds before the next pipeline entry. -/
  | interrupt
  /-- The handler raises anything else. -/
  | raise
  deriving DecidableEq, Repr

/-- What a step does to the stores, and where everybody stands afterwards. -/
structure Effect where
  statement : Option Statement := none
  run : Option (Command AnalysisId) := none
  prep : Option (Command SongId) := none
  calls : List Call
  worker : Worker
  newUuids : ℕ := 0

/-- Nothing happens. -/
def World.keep (w : World) : Effect where
  calls := w.calls
  worker := w.worker

/-- A step commits its statement and its commands. -/
def World.apply (w : World) (e : Effect) : World :=
  { w with
    db := e.statement.elim w.db fun s => s.run w.now w.db
    run := e.run.elim w.run fun c => c.run w.now w.run
    prep := e.prep.elim w.prep fun c => c.run w.now w.prep
    calls := e.calls
    worker := e.worker
    nextUuid := w.nextUuid + e.newUuids }

/-! ## The API -/

variable (cfg : Config)

/-- What the arrival of a request does: its first store operation. -/
def Request.plan (w : World) : Request → Effect
  | .enqueue userId songId mode =>
      match w.db.song songId with
      | none => w.keep
      | some song =>
          if song.prepStatus = .failed then w.keep
          else if song.readyForAnalysis then
            { w.keep with calls := .enqueueLength userId songId mode :: w.calls }
          else { w.keep with calls := .enqueueCreate userId songId mode false :: w.calls }
  | .retry userId id =>
      match w.db.analysis id with
      | none => w.keep
      | some a =>
          if a.userId = userId then
            { w.keep with calls := .retrySong userId id a.songId :: w.calls }
          else w.keep
  | .cancel userId id =>
      match w.db.analysis id with
      | none => w.keep
      | some a =>
          if a.cancelable id userId then
            { w.keep with
              statement := some (.cancel id userId)
              calls :=
                (match a.queueStreamId with
                | some entry => .cancelRemove id entry
                | none => .recalculate id) :: w.calls }
          else w.keep
  | .addSong =>
      { w.keep with
        statement := some (.createSong w.nextUuid)
        calls := .songPublish w.nextUuid :: w.calls
        newUuids := 1 }
  | .retryPrep songId =>
      if cfg.prepQueueMaxLength ≤ w.prep.xlen then w.keep
      else { w.keep with calls := .prepRetryUpdate songId :: w.calls }

/-- What a request does next; `rest` are the other requests in flight. -/
def Call.plan (w : World) (rest : List Call) : Call → Effect
  | .enqueueLength userId songId mode =>
      if cfg.queueMaxLength ≤ w.run.xlen then { w.keep with calls := rest }
      else { w.keep with calls := .enqueueCreate userId songId mode true :: rest }
  | .enqueueCreate userId songId mode songReady =>
      if (w.db.song songId).isNone then { w.keep with calls := rest }
      else
        { w.keep with
          statement := some (.create w.nextUuid userId songId
            (if songReady then .queued else .waitingForReference) mode)
          calls := if songReady then .enqueuePublish w.nextUuid :: rest else rest
          newUuids := 1 }
  | .enqueuePublish id =>
      if cfg.queueMaxLength ≤ w.run.xlen then
        { w.keep with calls := .enqueueRollBack id :: rest }
      else
        { w.keep with
          run := some (.xadd id)
          calls := .setStreamId id (w.run.lastId + 1) :: rest }
  | .enqueueRollBack id => { w.keep with statement := some (.delete id), calls := rest }
  | .retrySong userId id songId =>
      match w.db.song songId with
      | none => { w.keep with calls := rest }
      | some song =>
          if song.prepStatus = .failed then { w.keep with calls := rest }
          else if song.readyForAnalysis then
            { w.keep with calls := .retryLength userId id :: rest }
          else { w.keep with calls := .retryWaiting userId id :: rest }
  | .retryWaiting userId id =>
      { w.keep with statement := some (.retryToWaitingForReference id userId), calls := rest }
  | .retryLength userId id =>
      if cfg.queueMaxLength ≤ w.run.xlen then { w.keep with calls := rest }
      else { w.keep with calls := .retryUpdate userId id :: rest }
  | .retryUpdate userId id =>
      { w.keep with
        statement := some (.retry id userId)
        calls :=
          if w.db.analyses.any (Analysis.retryable id userId) then .retryPublish id :: rest
          else rest }
  | .retryPublish id =>
      { w.keep with
        run := some (.xadd id)
        calls := .setStreamId id (w.run.lastId + 1) :: rest }
  | .setStreamId id entry =>
      { w.keep with
        statement := some (.setQueueStreamId id entry)
        calls := if (w.db.analysis id).isSome then .recalculate id :: rest else rest }
  | .cancelRemove id entry =>
      { w.keep with run := some (.xdel entry), calls := .recalculate id :: rest }
  | .recalculate _ => { w.keep with statement := some .recalculatePositions, calls := rest }
  | .songPublish songId =>
      if cfg.prepQueueMaxLength ≤ w.prep.xlen then
        { w.keep with calls := .songRollBack songId :: rest }
      else { w.keep with prep := some (.xadd songId), calls := rest }
  | .songRollBack songId => { w.keep with statement := some (.deleteSong songId), calls := rest }
  | .prepRetryUpdate songId =>
      { w.keep with
        statement := some (.retryPrep songId)
        calls :=
          if w.db.songs.any (fun s => s.id = songId ∧ s.prepStatus = .failed) then
            .prepRetryPublish songId :: rest
          else rest }
  | .prepRetryPublish songId => { w.keep with prep := some (.xadd songId), calls := rest }

/-- Where a request that fails ends up.  A failing `Remove` is ignored by `Cancel`. -/
def Call.onError (rest : List Call) : Call → List Call
  | .cancelRemove id _ => .recalculate id :: rest
  | _ => rest

/-! ## The worker -/

/-- A stage's position in the flattened order, counted from `1`. -/
def stagePosition (entries : List (List String)) (stage : String) : ℕ :=
  entries.flatten.idxOf stage + 1

/-- The worker's next store operation, where it does not depend on anything else. -/
def Worker.plan (w : World) : Worker → Option Effect
  | .analysisRead entry id =>
      match w.db.analysis id with
      | none => some { w.keep with worker := .idle }
      | some a =>
          let active := cfg.analysisEntries a.mode
          some { w.keep with
            worker := .analysisContext entry id a.songId active (remainingEntries a.stages active) }
  | .analysisContext entry id songId active remaining =>
      match w.db.song songId with
      | none => some { w.keep with worker := .idle }
      | some song =>
          if song.referenceCached then
            some { w.keep with worker := .analysisStart entry id active remaining }
          else some { w.keep with worker := .idle }
  | .analysisStart entry id active remaining =>
      some { w.keep with
        statement := remaining.flatten.head?.map fun first =>
          .markProcessing id first (stagePosition active first) active.flatten.length
        worker := .analysisRun entry id active [] remaining }
  | .analysisRun entry id active (stage :: saving) remaining =>
      let next := (saving ++ remaining.flatten).head?
      some { w.keep with
        statement := some (.saveStageProgress id stage next (next.map (stagePosition active))
          active.flatten.length)
        worker := .analysisRun entry id active saving remaining }
  | .analysisRun entry id _ [] [] => some { w.keep with worker := .analysisDone entry id }
  | .analysisFail entry id errorCode _ =>
      some { w.keep with statement := some (.markFailed id errorCode), worker := .runAck entry }
  | .analysisDone entry id =>
      some { w.keep with statement := some (.markDone id), worker := .runAck entry }
  | .runAck entry => some { w.keep with run := some (.xack entry), worker := .runDel entry }
  | .runDel entry => some { w.keep with run := some (.xdel entry), worker := .idle }
  | .prepRead entry songId =>
      match w.db.song songId with
      | none => some { w.keep with worker := .idle }
      | some song =>
          some { w.keep with
            worker := .prepStart entry songId
              (remainingEntries song.prepStages cfg.prepEntries) }
  | .prepStart entry songId remaining =>
      some { w.keep with
        statement := remaining.flatten.head?.map fun first => .markPrepProcessing songId first
        worker := .prepRun entry songId [] remaining }
  | .prepRun entry songId (stage :: saving) remaining =>
      some { w.keep with
        statement := some (.savePrepStageProgress songId stage
          (saving ++ remaining.flatten).head?)
        worker := .prepRun entry songId saving remaining }
  | .prepRun entry songId [] [] => some { w.keep with worker := .prepReady entry songId }
  | .prepFail entry songId errorCode givingUp =>
      some { w.keep with
        statement := some (.markPrepFailed songId errorCode)
        worker := .prepFailWaiting entry songId errorCode givingUp }
  | .prepFailWaiting entry songId errorCode _ =>
      some { w.keep with
        statement := some (.failWaitingForReference songId errorCode)
        worker := .prepAck entry }
  | .prepReady entry songId =>
      some { w.keep with
        statement := some (.markPrepReady songId), worker := .prepWake entry songId }
  | .prepAppend entry songId (id :: ids) =>
      some { w.keep with run := some (.xadd id), worker := .prepAppend entry songId ids }
  | .prepAppend entry _ [] => some { w.keep with worker := .prepAck entry }
  | .prepAck entry => some { w.keep with prep := some (.xack entry), worker := .prepDel entry }
  | .prepDel entry => some { w.keep with prep := some (.xdel entry), worker := .idle }
  | _ => none

/-- The pipeline entry about to run. -/
def Worker.onSuccess : Worker → Option Worker
  | .analysisRun entry id active [] (members :: remaining) =>
      some (.analysisRun entry id active members remaining)
  | .prepRun entry songId [] (members :: remaining) =>
      some (.prepRun entry songId members remaining)
  | _ => none

def Worker.onFailure (errorCode : String) : Worker → Option Worker
  | .analysisRun entry id _ [] (_ :: _) => some (.analysisFail entry id errorCode false)
  | .prepRun entry songId [] (_ :: _) => some (.prepFail entry songId errorCode false)
  | _ => none

def Worker.onInterrupt : Worker → Option Worker
  | .analysisRun _ _ _ [] (_ :: _) | .prepRun _ _ [] (_ :: _) => some .idle
  | _ => none

/-- An exception leaves the entry pending; while giving up it is logged and the entry is
removed all the same. -/
def Worker.onRaise : Worker → Option Worker
  | .analysisFail entry _ _ true => some (.runAck entry)
  | .prepFail entry _ _ true | .prepFailWaiting entry _ _ true => some (.prepAck entry)
  | .down | .idle | .runAck _ | .runDel _ | .prepAck _ | .prepDel _ => none
  | _ => some .idle

/-- `reclaim_stuck_jobs` on one entry of `analyses:run`. -/
def reclaimRun (w : World) (entry : EntryId) : Option Effect :=
  match w.run.claimable pendingClaimMinIdle w.now entry with
  | none => none
  | some delivery =>
      if maxClaimAttempts < delivery.timesDelivered then
        match w.run.xrange entry with
        | some id => some { w.keep with worker := .analysisFail entry id "INTERNAL" true }
        | none => some { w.keep with worker := .runAck entry }
      else
        some { w.keep with
          run := some (.xclaim w.consumer pendingClaimMinIdle entry)
          worker := ((w.run.xclaimed pendingClaimMinIdle w.now entry).map fun id =>
            .analysisRead entry id).getD .idle }

/-- `reclaim_stuck_jobs` on one entry of `songs:prep`. -/
def reclaimPrep (w : World) (entry : EntryId) : Option Effect :=
  match w.prep.claimable songsPrepPendingClaimMinIdle w.now entry with
  | none => none
  | some delivery =>
      if maxClaimAttempts < delivery.timesDelivered then
        match w.prep.xrange entry with
        | some songId => some { w.keep with worker := .prepFail entry songId "INTERNAL" true }
        | none => some { w.keep with worker := .prepAck entry }
      else
        some { w.keep with
          prep := some (.xclaim w.consumer songsPrepPendingClaimMinIdle entry)
          worker := ((w.prep.xclaimed songsPrepPendingClaimMinIdle w.now entry).map fun songId =>
            .prepRead entry songId).getD .idle }

/-- `read_next` on `analyses:run`, when it delivers an entry. -/
def deliver (w : World) : Option Effect :=
  (w.run.newEntries 1).head?.map fun e =>
    { w.keep with
      run := some (.xreadgroup w.consumer 1)
      worker := .analysisRead e.id e.fields }

/-- `process_entry` of one of the worker's own pending entries. -/
def pickPrep (w : World) (entry : EntryId) : Option Effect :=
  if w.prep.pending.any (fun d => d.id = entry ∧ d.consumer = w.consumer) then
    (w.prep.xrange entry).map fun songId => { w.keep with worker := .prepRead entry songId }
  else none

/-! ## One step -/

/-- Actions of the process itself, which touch no store. -/
def lifecycle (w : World) : Action → Option World
  | .sleep seconds => some { w with now := w.now + seconds }
  | .start consumer =>
      if w.worker = .down then some { w with worker := .idle, consumer, looping := false } else none
  | .crash => if w.worker = .down then none else some { w with worker := .down }
  | .enterLoop =>
      if w.worker = .idle ∧ w.looping = false then some { w with looping := true } else none
  | _ => none

/-- The effect of every other action, if it is enabled. -/
def plan (w : World) : Action → Option Effect
  | .request r => some (r.plan cfg w)
  | .advance c => if c ∈ w.calls then some (c.plan cfg w (w.calls.erase c)) else none
  | .abort c =>
      if c ∈ w.calls then some { w.keep with calls := c.onError (w.calls.erase c) } else none
  | .deliver => if w.worker = .idle ∧ w.looping then deliver w else none
  | .claimPrep =>
      if w.worker = .idle ∧ w.looping then
        some { w.keep with prep := some (.xreadgroup w.consumer reclaimBatchSize) }
      else none
  | .pickPrep entry => if w.worker = .idle ∧ w.looping then pickPrep w entry else none
  | .reclaimRun entry => if w.worker = .idle ∧ ¬ w.looping then reclaimRun w entry else none
  | .reclaimPrep entry => if w.worker = .idle ∧ ¬ w.looping then reclaimPrep w entry else none
  | .work => w.worker.plan cfg w
  | .wake ids =>
      match w.worker with
      | .prepWake entry songId =>
          if ids.Perm (w.db.newlyQueued songId) then
            some { w.keep with
              statement := some (.wakeWaitingForReference songId)
              worker := .prepAppend entry songId ids }
          else none
      | _ => none
  | .entrySucceeds => w.worker.onSuccess.map fun worker => { w.keep with worker }
  | .entryFails errorCode => (w.worker.onFailure errorCode).map fun worker => { w.keep with worker }
  | .interrupt => w.worker.onInterrupt.map fun worker => { w.keep with worker }
  | .raise => w.worker.onRaise.map fun worker => { w.keep with worker }
  | _ => none

/-- One step of the system. -/
def step (w : World) (a : Action) : Option World :=
  (lifecycle w a).or ((plan cfg w a).map w.apply)

/-! ## The default configuration -/

/-- A stage with the modes it runs under. -/
structure PipelineStage where
  name : String
  modes : List AnalysisMode := [.clean, .mixed]

/-- `_stages_for_mode`. -/
def stagesForMode (entries : List (List PipelineStage)) (mode : AnalysisMode) :
    List (List String) :=
  (entries.map fun members => (members.filter (mode ∈ ·.modes)).map PipelineStage.name).filter
    (· ≠ [])

/-- `build_stages`, with the aspect stages as one `ParallelGroup`. -/
def buildStages : List (List PipelineStage) :=
  [[{ name := "preprocess" }],
   [{ name := "separate_recording", modes := [.mixed] }],
   [{ name := "features" }],
   [{ name := "align" }],
   [{ name := "pitch" }],
   [{ name := "key_normalization" }],
   [{ name := "rhythm" }, { name := "vibrato" }, { name := "dynamics" },
    { name := "timbre", modes := [.clean] }, { name := "breath", modes := [.clean] }],
   [{ name := "recording_condition" }],
   [{ name := "aggregate" }]]

/-- `build_prep_stages`. -/
def buildPrepStages : List (List String) :=
  [["prep_reference"], ["separate_reference"], ["transcribe"], ["prep_reference_pitch"]]

/-- Both programs with `QUEUE_MAX_LENGTH` at its default. -/
def defaultConfig : Config where
  analysisEntries := stagesForMode buildStages
  prepEntries := buildPrepStages
  queueMaxLength := 20
  prepQueueMaxLength := 20

/-- A song is added and a worker takes its entry up. -/
def startsFirstSong : List Action :=
  [.request .addSong, .advance (.songPublish 0), .start 0, .enterLoop, .claimPrep, .pickPrep 1,
   .work, .work]

/-- The worker runs the four entries of the cold path and marks the song ready. -/
def readiesFirstSong : List Action :=
  [.entrySucceeds, .work, .entrySucceeds, .work, .entrySucceeds, .work, .entrySucceeds, .work,
   .work, .work]

/-- The worker wakes nobody and acknowledges the entry. -/
def finishesFirstSong : List Action := [.wake [], .work, .work, .work]

/-- From nothing to an idle worker and one ready song. -/
def preparesFirstSong : List Action := startsFirstSong ++ readiesFirstSong ++ finishesFirstSong

/-- `Enqueue` for a ready song, alone: the row `id` and its stream entry `entry`. -/
def enqueuesReady (userId : UserId) (songId : SongId) (id : AnalysisId) (entry : EntryId) :
    List Action :=
  [.request (.enqueue userId songId .clean), .advance (.enqueueLength userId songId .clean),
   .advance (.enqueueCreate userId songId .clean true), .advance (.enqueuePublish id),
   .advance (.setStreamId id entry), .advance (.recalculate id)]

/-- `Enqueue` for a song that is not ready, alone. -/
def enqueuesWaiting (userId : UserId) (songId : SongId) : List Action :=
  [.request (.enqueue userId songId .clean), .advance (.enqueueCreate userId songId .clean false)]

example : ((Machine.exec (step defaultConfig) {} preparesFirstSong).map fun w =>
    (w.worker, w.prep.entries, w.db.songs.map Song.prepStatus)) = some (.idle, [], [.ready]) := by
  decide +kernel

end VocalCoach
