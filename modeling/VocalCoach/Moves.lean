/-
# What the two programs can do

`WorkerMove` and `CallMove` list the moves of the worker and of a request in flight, one
constructor each: where it stands before, what it knows when it moves, and the effect.
`plan_move` and `plan_apiMove` are the inversions of `plan`; what a move does to anything
is then read off by cases.

The API never moves the worker (`plan_worker`) and the worker never moves a request
(`WorkerMove.calls`).
-/
import VocalCoach.System

namespace VocalCoach

open RedisStream Resumption

variable {cfg : Config} {w : World} {a : Action} {e : Effect}

/-! ## The moves of the worker -/

inductive WorkerMove (cfg : Config) (w : World) : Action → Worker → Effect → Prop
  /- Entries are taken up. -/
  | deliver {x : Entry AnalysisId} (hx : (w.run.newEntries 1).head? = some x) :
      WorkerMove cfg w .deliver .idle
        { w.keep with run := some (.xreadgroup w.consumer 1), worker := .analysisRead x.id x.fields }
  | claimPrep :
      WorkerMove cfg w .claimPrep .idle
        { w.keep with prep := some (.xreadgroup w.consumer reclaimBatchSize), worker := .idle }
  | pickPrep {entry songId d} (hd : d ∈ w.prep.pending) (hid : d.id = entry)
      (hconsumer : d.consumer = w.consumer) (hrange : w.prep.xrange entry = some songId) :
      WorkerMove cfg w (.pickPrep entry) .idle { w.keep with worker := .prepRead entry songId }
  | reclaimRun {entry id d} (hd : w.run.claimable pendingClaimMinIdle w.now entry = some d)
      (hmax : ¬ maxClaimAttempts < d.timesDelivered) (hrange : w.run.xrange entry = some id) :
      WorkerMove cfg w (.reclaimRun entry) .idle
        { w.keep with
          run := some (.xclaim w.consumer pendingClaimMinIdle entry)
          worker := .analysisRead entry id }
  | reclaimRunGone {entry d} (hd : w.run.claimable pendingClaimMinIdle w.now entry = some d)
      (hmax : ¬ maxClaimAttempts < d.timesDelivered) (hrange : w.run.xrange entry = none) :
      WorkerMove cfg w (.reclaimRun entry) .idle
        { w.keep with
          run := some (.xclaim w.consumer pendingClaimMinIdle entry), worker := .idle }
  | giveUpRun {entry id d} (hd : w.run.claimable pendingClaimMinIdle w.now entry = some d)
      (hmax : maxClaimAttempts < d.timesDelivered) (hrange : w.run.xrange entry = some id) :
      WorkerMove cfg w (.reclaimRun entry) .idle
        { w.keep with worker := .analysisFail entry id "INTERNAL" true }
  | giveUpRunGone {entry d} (hd : w.run.claimable pendingClaimMinIdle w.now entry = some d)
      (hmax : maxClaimAttempts < d.timesDelivered) (hrange : w.run.xrange entry = none) :
      WorkerMove cfg w (.reclaimRun entry) .idle { w.keep with worker := .runAck entry }
  | reclaimPrep {entry songId d}
      (hd : w.prep.claimable songsPrepPendingClaimMinIdle w.now entry = some d)
      (hmax : ¬ maxClaimAttempts < d.timesDelivered) (hrange : w.prep.xrange entry = some songId) :
      WorkerMove cfg w (.reclaimPrep entry) .idle
        { w.keep with
          prep := some (.xclaim w.consumer songsPrepPendingClaimMinIdle entry)
          worker := .prepRead entry songId }
  | reclaimPrepGone {entry d}
      (hd : w.prep.claimable songsPrepPendingClaimMinIdle w.now entry = some d)
      (hmax : ¬ maxClaimAttempts < d.timesDelivered) (hrange : w.prep.xrange entry = none) :
      WorkerMove cfg w (.reclaimPrep entry) .idle
        { w.keep with
          prep := some (.xclaim w.consumer songsPrepPendingClaimMinIdle entry), worker := .idle }
  | giveUpPrep {entry songId d}
      (hd : w.prep.claimable songsPrepPendingClaimMinIdle w.now entry = some d)
      (hmax : maxClaimAttempts < d.timesDelivered) (hrange : w.prep.xrange entry = some songId) :
      WorkerMove cfg w (.reclaimPrep entry) .idle
        { w.keep with worker := .prepFail entry songId "INTERNAL" true }
  | giveUpPrepGone {entry d}
      (hd : w.prep.claimable songsPrepPendingClaimMinIdle w.now entry = some d)
      (hmax : maxClaimAttempts < d.timesDelivered) (hrange : w.prep.xrange entry = none) :
      WorkerMove cfg w (.reclaimPrep entry) .idle { w.keep with worker := .prepAck entry }
  /- `AnalysisJobHandler.handle`. -/
  | rowGone {entry id} (hr : w.db.analysis id = none) :
      WorkerMove cfg w .work (.analysisRead entry id) { w.keep with worker := .idle }
  | rowRead {entry id r} (hr : w.db.analysis id = some r) :
      WorkerMove cfg w .work (.analysisRead entry id)
        { w.keep with
          worker := .analysisContext entry id r.songId (cfg.analysisEntries r.mode)
            (remainingEntries r.stages (cfg.analysisEntries r.mode)) }
  | referenceGone {entry id songId active remaining} :
      WorkerMove cfg w .work (.analysisContext entry id songId active remaining)
        { w.keep with worker := .idle }
  | referenceRead {entry id songId active remaining song} (hsong : w.db.song songId = some song)
      (hcached : song.referenceCached) :
      WorkerMove cfg w .work (.analysisContext entry id songId active remaining)
        { w.keep with worker := .analysisStart entry id active remaining }
  | nothingLeft {entry id active remaining} (h : remaining.flatten.head? = none) :
      WorkerMove cfg w .work (.analysisStart entry id active remaining)
        { w.keep with worker := .analysisRun entry id active [] remaining }
  | markProcessing {entry id active remaining first} (h : remaining.flatten.head? = some first) :
      WorkerMove cfg w .work (.analysisStart entry id active remaining)
        { w.keep with
          statement := some
            (.markProcessing id first (stagePosition active first) active.flatten.length)
          worker := .analysisRun entry id active [] remaining }
  | saveStageProgress {entry id active stage saving remaining next} :
      WorkerMove cfg w .work (.analysisRun entry id active (stage :: saving) remaining)
        { w.keep with
          statement := some (.saveStageProgress id stage next (next.map (stagePosition active))
            active.flatten.length)
          worker := .analysisRun entry id active saving remaining }
  | analysisRan {entry id active} :
      WorkerMove cfg w .work (.analysisRun entry id active [] [])
        { w.keep with worker := .analysisDone entry id }
  | markFailed {entry id errorCode givingUp} :
      WorkerMove cfg w .work (.analysisFail entry id errorCode givingUp)
        { w.keep with statement := some (.markFailed id errorCode), worker := .runAck entry }
  | markDone {entry id} :
      WorkerMove cfg w .work (.analysisDone entry id)
        { w.keep with statement := some (.markDone id), worker := .runAck entry }
  | runAck {entry} :
      WorkerMove cfg w .work (.runAck entry)
        { w.keep with run := some (.xack entry), worker := .runDel entry }
  | runDel {entry} :
      WorkerMove cfg w .work (.runDel entry)
        { w.keep with run := some (.xdel entry), worker := .idle }
  /- `SongPrepJobHandler.handle`. -/
  | songGone {entry songId} (hsong : w.db.song songId = none) :
      WorkerMove cfg w .work (.prepRead entry songId) { w.keep with worker := .idle }
  | songRead {entry songId song} (hsong : w.db.song songId = some song) :
      WorkerMove cfg w .work (.prepRead entry songId)
        { w.keep with
          worker := .prepStart entry songId (remainingEntries song.prepStages cfg.prepEntries) }
  | nothingLeftPrep {entry songId remaining} (h : remaining.flatten.head? = none) :
      WorkerMove cfg w .work (.prepStart entry songId remaining)
        { w.keep with worker := .prepRun entry songId [] remaining }
  | markPrepProcessing {entry songId remaining first} (h : remaining.flatten.head? = some first) :
      WorkerMove cfg w .work (.prepStart entry songId remaining)
        { w.keep with
          statement := some (.markPrepProcessing songId first)
          worker := .prepRun entry songId [] remaining }
  | savePrepStageProgress {entry songId stage saving remaining next} :
      WorkerMove cfg w .work (.prepRun entry songId (stage :: saving) remaining)
        { w.keep with
          statement := some (.savePrepStageProgress songId stage next)
          worker := .prepRun entry songId saving remaining }
  | prepRan {entry songId} :
      WorkerMove cfg w .work (.prepRun entry songId [] [])
        { w.keep with worker := .prepReady entry songId }
  | markPrepFailed {entry songId errorCode givingUp} :
      WorkerMove cfg w .work (.prepFail entry songId errorCode givingUp)
        { w.keep with
          statement := some (.markPrepFailed songId errorCode)
          worker := .prepFailWaiting entry songId errorCode givingUp }
  | failWaiting {entry songId errorCode givingUp} :
      WorkerMove cfg w .work (.prepFailWaiting entry songId errorCode givingUp)
        { w.keep with
          statement := some (.failWaitingForReference songId errorCode), worker := .prepAck entry }
  | markPrepReady {entry songId} :
      WorkerMove cfg w .work (.prepReady entry songId)
        { w.keep with
          statement := some (.markPrepReady songId), worker := .prepWake entry songId }
  | wake {entry songId ids} (hperm : ids.Perm (w.db.newlyQueued songId)) :
      WorkerMove cfg w (.wake ids) (.prepWake entry songId)
        { w.keep with
          statement := some (.wakeWaitingForReference songId)
          worker := .prepAppend entry songId ids }
  | append {entry songId id ids} :
      WorkerMove cfg w .work (.prepAppend entry songId (id :: ids))
        { w.keep with run := some (.xadd id), worker := .prepAppend entry songId ids }
  | appended {entry songId} :
      WorkerMove cfg w .work (.prepAppend entry songId []) { w.keep with worker := .prepAck entry }
  | prepAck {entry} :
      WorkerMove cfg w .work (.prepAck entry)
        { w.keep with prep := some (.xack entry), worker := .prepDel entry }
  | prepDel {entry} :
      WorkerMove cfg w .work (.prepDel entry)
        { w.keep with prep := some (.xdel entry), worker := .idle }
  /- How pipeline entries end. -/
  | entryRan {entry id active members remaining} :
      WorkerMove cfg w .entrySucceeds (.analysisRun entry id active [] (members :: remaining))
        { w.keep with worker := .analysisRun entry id active members remaining }
  | prepEntryRan {entry songId members remaining} :
      WorkerMove cfg w .entrySucceeds (.prepRun entry songId [] (members :: remaining))
        { w.keep with worker := .prepRun entry songId members remaining }
  | entryFailed {entry id active members remaining errorCode} :
      WorkerMove cfg w (.entryFails errorCode)
        (.analysisRun entry id active [] (members :: remaining))
        { w.keep with worker := .analysisFail entry id errorCode false }
  | prepEntryFailed {entry songId members remaining errorCode} :
      WorkerMove cfg w (.entryFails errorCode) (.prepRun entry songId [] (members :: remaining))
        { w.keep with worker := .prepFail entry songId errorCode false }
  | interrupted {entry id active members remaining} :
      WorkerMove cfg w .interrupt (.analysisRun entry id active [] (members :: remaining))
        { w.keep with worker := .idle }
  | prepInterrupted {entry songId members remaining} :
      WorkerMove cfg w .interrupt (.prepRun entry songId [] (members :: remaining))
        { w.keep with worker := .idle }
  | raised {worker} (h : worker.onRaise = some .idle) :
      WorkerMove cfg w .raise worker { w.keep with worker := .idle }
  | unrecorded {entry id errorCode} :
      WorkerMove cfg w .raise (.analysisFail entry id errorCode true)
        { w.keep with worker := .runAck entry }
  | unrecordedPrep {entry songId errorCode} :
      WorkerMove cfg w .raise (.prepFail entry songId errorCode true)
        { w.keep with worker := .prepAck entry }
  | unrecordedWaiting {entry songId errorCode} :
      WorkerMove cfg w .raise (.prepFailWaiting entry songId errorCode true)
        { w.keep with worker := .prepAck entry }

/-! ## The moves of the API -/

/-- The requests that leave an analysis queued without a stream entry or a position as long
as they have not finished. -/
def Call.settles : Call → Bool
  | .enqueuePublish _ | .enqueueRollBack _ | .retryPublish _ | .setStreamId _ _
  | .recalculate _ => true
  | _ => false

inductive RequestMove (cfg : Config) (w : World) : Request → Effect → Prop
  /-- The request is refused, or misses its row. -/
  | refused {r} : RequestMove cfg w r w.keep
  | enqueueReady {userId songId mode song} (hsong : w.db.song songId = some song)
      (hready : song.readyForAnalysis) :
      RequestMove cfg w (.enqueue userId songId mode)
        { w.keep with calls := .enqueueLength userId songId mode :: w.calls }
  | enqueueNotReady {userId songId mode song} (hsong : w.db.song songId = some song)
      (hready : ¬ song.readyForAnalysis) :
      RequestMove cfg w (.enqueue userId songId mode)
        { w.keep with calls := .enqueueCreate userId songId mode false :: w.calls }
  | retry {userId id r} (hr : w.db.analysis id = some r) :
      RequestMove cfg w (.retry userId id)
        { w.keep with calls := .retrySong userId id r.songId :: w.calls }
  | cancelStored {userId id r entry} (hr : w.db.analysis id = some r)
      (hguard : r.cancelable id userId) (hentry : r.queueStreamId = some entry) :
      RequestMove cfg w (.cancel userId id)
        { w.keep with
          statement := some (.cancel id userId), calls := .cancelRemove id entry :: w.calls }
  | cancelUnstored {userId id r} (hr : w.db.analysis id = some r)
      (hguard : r.cancelable id userId) (hentry : r.queueStreamId = none) :
      RequestMove cfg w (.cancel userId id)
        { w.keep with
          statement := some (.cancel id userId), calls := .recalculate id :: w.calls }
  | addSong :
      RequestMove cfg w .addSong
        { w.keep with
          statement := some (.createSong w.nextUuid)
          calls := .songPublish w.nextUuid :: w.calls
          newUuids := 1 }
  | retryPrep {songId} :
      RequestMove cfg w (.retryPrep songId)
        { w.keep with calls := .prepRetryUpdate songId :: w.calls }

inductive CallMove (cfg : Config) (w : World) (rest : List Call) : Call → Effect → Prop
  /-- The queue is full, the song is gone or failed, or an update misses its row. -/
  | ended {c} (hc : c.settles = false) : CallMove cfg w rest c { w.keep with calls := rest }
  | enqueueLength {userId songId mode} :
      CallMove cfg w rest (.enqueueLength userId songId mode)
        { w.keep with calls := .enqueueCreate userId songId mode true :: rest }
  | createQueued {userId songId mode} :
      CallMove cfg w rest (.enqueueCreate userId songId mode true)
        { w.keep with
          statement := some (.create w.nextUuid userId songId .queued mode)
          calls := .enqueuePublish w.nextUuid :: rest
          newUuids := 1 }
  | createWaiting {userId songId mode} :
      CallMove cfg w rest (.enqueueCreate userId songId mode false)
        { w.keep with
          statement := some (.create w.nextUuid userId songId .waitingForReference mode)
          calls := rest
          newUuids := 1 }
  | publish {id} :
      CallMove cfg w rest (.enqueuePublish id)
        { w.keep with
          run := some (.xadd id), calls := .setStreamId id (w.run.lastId + 1) :: rest }
  | publishFull {id} :
      CallMove cfg w rest (.enqueuePublish id)
        { w.keep with calls := .enqueueRollBack id :: rest }
  | rollBack {id} :
      CallMove cfg w rest (.enqueueRollBack id)
        { w.keep with statement := some (.delete id), calls := rest }
  | retryReady {userId id songId} :
      CallMove cfg w rest (.retrySong userId id songId)
        { w.keep with calls := .retryLength userId id :: rest }
  | retryNotReady {userId id songId} :
      CallMove cfg w rest (.retrySong userId id songId)
        { w.keep with calls := .retryWaiting userId id :: rest }
  | retryWaiting {userId id} :
      CallMove cfg w rest (.retryWaiting userId id)
        { w.keep with statement := some (.retryToWaitingForReference id userId), calls := rest }
  | retryLength {userId id} :
      CallMove cfg w rest (.retryLength userId id)
        { w.keep with calls := .retryUpdate userId id :: rest }
  | retryUpdate {userId id r} (hr : r ∈ w.db.analyses) (hguard : r.retryable id userId) :
      CallMove cfg w rest (.retryUpdate userId id)
        { w.keep with statement := some (.retry id userId), calls := .retryPublish id :: rest }
  | retryMissed {userId id} (hmiss : ∀ r ∈ w.db.analyses, ¬ r.retryable id userId) :
      CallMove cfg w rest (.retryUpdate userId id)
        { w.keep with statement := some (.retry id userId), calls := rest }
  | retryPublish {id} :
      CallMove cfg w rest (.retryPublish id)
        { w.keep with
          run := some (.xadd id), calls := .setStreamId id (w.run.lastId + 1) :: rest }
  | setStreamId {id entry} :
      CallMove cfg w rest (.setStreamId id entry)
        { w.keep with
          statement := some (.setQueueStreamId id entry), calls := .recalculate id :: rest }
  | setStreamIdMissed {id entry} (hmiss : w.db.analysis id = none) :
      CallMove cfg w rest (.setStreamId id entry)
        { w.keep with statement := some (.setQueueStreamId id entry), calls := rest }
  | cancelRemove {id entry} :
      CallMove cfg w rest (.cancelRemove id entry)
        { w.keep with run := some (.xdel entry), calls := .recalculate id :: rest }
  | recalculate {id} :
      CallMove cfg w rest (.recalculate id)
        { w.keep with statement := some .recalculatePositions, calls := rest }
  | songPublish {songId} :
      CallMove cfg w rest (.songPublish songId)
        { w.keep with prep := some (.xadd songId), calls := rest }
  | songPublishFull {songId} :
      CallMove cfg w rest (.songPublish songId)
        { w.keep with calls := .songRollBack songId :: rest }
  | songRollBack {songId} :
      CallMove cfg w rest (.songRollBack songId)
        { w.keep with statement := some (.deleteSong songId), calls := rest }
  | prepRetryUpdate {songId} :
      CallMove cfg w rest (.prepRetryUpdate songId)
        { w.keep with
          statement := some (.retryPrep songId), calls := .prepRetryPublish songId :: rest }
  | prepRetryMissed {songId} :
      CallMove cfg w rest (.prepRetryUpdate songId)
        { w.keep with statement := some (.retryPrep songId), calls := rest }
  | prepRetryPublish {songId} :
      CallMove cfg w rest (.prepRetryPublish songId)
        { w.keep with prep := some (.xadd songId), calls := rest }

/-- The moves of the API as a whole. -/
inductive ApiMove (cfg : Config) (w : World) : Action → Effect → Prop
  | request {r e} (h : RequestMove cfg w r e) : ApiMove cfg w (.request r) e
  | advance {c e} (hc : c ∈ w.calls) (h : CallMove cfg w (w.calls.erase c) c e) :
      ApiMove cfg w (.advance c) e
  | abort {c} (hc : c ∈ w.calls) :
      ApiMove cfg w (.abort c) { w.keep with calls := c.onError (w.calls.erase c) }

/-! ## The API and the worker keep to themselves -/

/-- The steps of the API. -/
def Action.ofApi : Action → Bool
  | .request _ | .advance _ | .abort _ => true
  | _ => false

/-! ## Inversion -/

theorem Request.plan_move (r : Request) : RequestMove cfg w r (r.plan cfg w) := by
  cases r <;> simp only [Request.plan]
  case enqueue userId songId mode =>
    split
    · exact .refused
    next song hsong =>
      split_ifs with hfailed hready
      · exact .refused
      · exact .enqueueReady hsong hready
      · exact .enqueueNotReady hsong hready
  case retry userId id =>
    split
    · exact .refused
    next r hr =>
      split_ifs
      · exact .retry hr
      · exact .refused
  case cancel userId id =>
    split
    · exact .refused
    next r hr =>
      split_ifs with hguard
      · cases hentry : r.queueStreamId with
        | some entry => exact .cancelStored hr hguard hentry
        | none => exact .cancelUnstored hr hguard hentry
      · exact .refused
  case addSong => exact .addSong
  case retryPrep =>
    split_ifs
    · exact .refused
    · exact .retryPrep

theorem Call.plan_move (c : Call) (rest : List Call) :
    CallMove cfg w rest c (c.plan cfg w rest) := by
  cases c <;> simp only [Call.plan]
  case enqueueLength =>
    split_ifs
    · exact .ended rfl
    · exact .enqueueLength
  case enqueueCreate userId songId mode songReady =>
    split_ifs with hgone hready
    · exact .ended rfl
    · rw [hready]
      exact .createQueued
    · rw [Bool.not_eq_true] at hready
      rw [hready]
      exact .createWaiting
  case enqueuePublish =>
    split_ifs
    · exact .publishFull
    · exact .publish
  case enqueueRollBack => exact .rollBack
  case retrySong =>
    split
    · exact .ended rfl
    · split_ifs
      · exact .ended rfl
      · exact .retryReady
      · exact .retryNotReady
  case retryWaiting => exact .retryWaiting
  case retryLength =>
    split_ifs
    · exact .ended rfl
    · exact .retryLength
  case retryUpdate userId id =>
    split_ifs with hany
    · obtain ⟨r, hr, hguard⟩ := List.any_eq_true.mp hany
      exact .retryUpdate hr hguard
    · exact .retryMissed fun r hr hguard => hany (List.any_eq_true.mpr ⟨r, hr, hguard⟩)
  case retryPublish => exact .retryPublish
  case setStreamId id entry =>
    split_ifs with hfound
    · exact .setStreamId
    · exact .setStreamIdMissed (by simpa using hfound)
  case cancelRemove => exact .cancelRemove
  case recalculate => exact .recalculate
  case songPublish =>
    split_ifs
    · exact .songPublishFull
    · exact .songPublish
  case songRollBack => exact .songRollBack
  case prepRetryUpdate =>
    split_ifs
    · exact .prepRetryUpdate
    · exact .prepRetryMissed
  case prepRetryPublish => exact .prepRetryPublish

/-- **Every planned step of the API is one of its moves.** -/
theorem plan_apiMove (h : plan cfg w a = some e) (ha : a.ofApi) : ApiMove cfg w a e := by
  cases a <;> simp only [Action.ofApi, Bool.false_eq_true] at ha <;>
    simp only [plan, Option.some.injEq, Option.ite_none_right_eq_some] at h
  case request r =>
    subst h
    exact .request r.plan_move
  case advance c =>
    obtain ⟨hc, rfl⟩ := h
    exact .advance hc (c.plan_move _)
  case abort c =>
    obtain ⟨hc, rfl⟩ := h
    exact .abort hc

/-- The API never moves the worker. -/
theorem plan_worker (h : plan cfg w a = some e) (ha : a.ofApi) : e.worker = w.worker := by
  cases plan_apiMove h ha with
  | request hmove => cases hmove <;> rfl
  | advance _ hmove => cases hmove <;> rfl
  | abort => rfl

theorem Worker.plan_move {worker : Worker} (h : worker.plan cfg w = some e) :
    WorkerMove cfg w .work worker e := by
  cases worker <;> simp only [Worker.plan, reduceCtorEq] at h
  case analysisRead =>
    split at h <;> cases h
    next hr => exact .rowGone hr
    next hr => exact .rowRead hr
  case analysisContext =>
    split at h
    · cases h
      exact .referenceGone
    next song hsong =>
      split_ifs at h with hcached <;> cases h
      · exact .referenceRead hsong hcached
      · exact .referenceGone
  case analysisStart _ _ _ remaining =>
    cases h
    cases hfirst : remaining.flatten.head? with
    | none => exact .nothingLeft hfirst
    | some first => exact .markProcessing hfirst
  case analysisRun _ _ _ saving remaining =>
    cases saving <;> cases remaining <;> simp only [reduceCtorEq, Option.some.injEq] at h <;>
      subst h <;> constructor
  case prepRead =>
    split at h <;> cases h
    next hsong => exact .songGone hsong
    next hsong => exact .songRead hsong
  case prepStart _ _ remaining =>
    cases h
    cases hfirst : remaining.flatten.head? with
    | none => exact .nothingLeftPrep hfirst
    | some first => exact .markPrepProcessing hfirst
  case prepRun _ _ saving remaining =>
    cases saving <;> cases remaining <;> simp only [reduceCtorEq, Option.some.injEq] at h <;>
      subst h <;> constructor
  case prepAppend _ _ ids => cases ids <;> cases h <;> constructor
  all_goals
    cases h
    constructor

theorem reclaimRun_move {entry : EntryId} (h : reclaimRun w entry = some e) :
    WorkerMove cfg w (.reclaimRun entry) .idle e := by
  unfold reclaimRun at h
  split at h
  · cases h
  next d hd =>
    split_ifs at h with hmax
    · split at h <;> cases h
      next hrange => exact .giveUpRun hd hmax hrange
      next hrange => exact .giveUpRunGone hd hmax hrange
    · cases h
      rw [Stream.xclaimed_eq hd]
      cases hrange : w.run.xrange entry with
      | none => exact .reclaimRunGone hd hmax hrange
      | some id => exact .reclaimRun hd hmax hrange

theorem reclaimPrep_move {entry : EntryId} (h : reclaimPrep w entry = some e) :
    WorkerMove cfg w (.reclaimPrep entry) .idle e := by
  unfold reclaimPrep at h
  split at h
  · cases h
  next d hd =>
    split_ifs at h with hmax
    · split at h <;> cases h
      next hrange => exact .giveUpPrep hd hmax hrange
      next hrange => exact .giveUpPrepGone hd hmax hrange
    · cases h
      rw [Stream.xclaimed_eq hd]
      cases hrange : w.prep.xrange entry with
      | none => exact .reclaimPrepGone hd hmax hrange
      | some songId => exact .reclaimPrep hd hmax hrange

theorem pickPrep_move {entry : EntryId} (h : pickPrep w entry = some e) :
    WorkerMove cfg w (.pickPrep entry) .idle e := by
  unfold pickPrep at h
  split_ifs at h with hany
  obtain ⟨songId, hrange, rfl⟩ := Option.map_eq_some_iff.mp h
  obtain ⟨d, hd, hmine⟩ := List.any_eq_true.mp hany
  have hmine : d.id = entry ∧ d.consumer = w.consumer := by simpa using hmine
  exact .pickPrep hd hmine.1 hmine.2 hrange

theorem Worker.onRaise_move {worker worker' : Worker} (h : worker.onRaise = some worker') :
    WorkerMove cfg w .raise worker { w.keep with worker := worker' } := by
  have hraise := h
  unfold Worker.onRaise at h
  split at h <;> cases h
  · exact .unrecorded
  · exact .unrecordedPrep
  · exact .unrecordedWaiting
  · exact .raised hraise

/-- **Every planned step that is not the API's is a move of the worker.** -/
theorem plan_move (h : plan cfg w a = some e) (ha : a.ofApi = false) :
    WorkerMove cfg w a w.worker e := by
  cases a <;> simp only [Action.ofApi, Bool.true_eq_false] at ha <;>
    simp only [plan, reduceCtorEq, Option.ite_none_right_eq_some] at h
  case deliver =>
    obtain ⟨⟨hidle, -⟩, h⟩ := h
    obtain ⟨x, hx, rfl⟩ := Option.map_eq_some_iff.mp h
    rw [hidle]
    exact .deliver hx
  case claimPrep =>
    obtain ⟨⟨hidle, -⟩, h⟩ := h
    cases h
    rw [World.keep, hidle]
    exact .claimPrep
  case pickPrep entry =>
    rw [h.1.1]
    exact pickPrep_move h.2
  case reclaimRun entry =>
    rw [h.1.1]
    exact reclaimRun_move h.2
  case reclaimPrep entry =>
    rw [h.1.1]
    exact reclaimPrep_move h.2
  case work => exact Worker.plan_move h
  case wake ids =>
    cases hw : w.worker <;> rw [hw] at h <;> simp only [reduceCtorEq] at h
    split_ifs at h with hperm
    cases h
    exact .wake hperm
  case entrySucceeds =>
    obtain ⟨worker, hworker, rfl⟩ := Option.map_eq_some_iff.mp h
    generalize w.worker = before at hworker
    unfold Worker.onSuccess at hworker
    split at hworker <;> cases hworker
    · exact .entryRan
    · exact .prepEntryRan
  case entryFails code =>
    obtain ⟨worker, hworker, rfl⟩ := Option.map_eq_some_iff.mp h
    generalize w.worker = before at hworker
    unfold Worker.onFailure at hworker
    split at hworker <;> cases hworker
    · exact .entryFailed
    · exact .prepEntryFailed
  case interrupt =>
    obtain ⟨worker, hworker, rfl⟩ := Option.map_eq_some_iff.mp h
    generalize w.worker = before at hworker
    unfold Worker.onInterrupt at hworker
    split at hworker <;> cases hworker
    · exact .interrupted
    · exact .prepInterrupted
  case raise =>
    obtain ⟨worker, hworker, rfl⟩ := Option.map_eq_some_iff.mp h
    exact Worker.onRaise_move hworker

/-- The worker never moves a request, and draws no id. -/
theorem WorkerMove.calls {worker : Worker} (h : WorkerMove cfg w a worker e) :
    e.calls = w.calls ∧ e.newUuids = 0 := by
  cases h <;> exact ⟨rfl, rfl⟩

/-- A request never takes another one out. -/
theorem CallMove.subset_calls {rest : List Call} {c : Call} (h : CallMove cfg w rest c e) :
    rest ⊆ e.calls := by
  cases h <;> first | exact List.Subset.refl _ | exact List.subset_cons_self _ _

theorem RequestMove.subset_calls {r : Request} (h : RequestMove cfg w r e) :
    w.calls ⊆ e.calls := by
  cases h <;> first | exact List.Subset.refl _ | exact List.subset_cons_self _ _

theorem Call.subset_onError (c : Call) (rest : List Call) : rest ⊆ c.onError rest := by
  cases c <;> first | exact List.Subset.refl _ | exact List.subset_cons_self _ _

/-- **A request stays where it stands** until it advances or fails. -/
theorem plan_call (h : plan cfg w a = some e) {c : Call} (hc : c ∈ w.calls) :
    c ∈ e.calls ∨ a = .advance c ∨ a = .abort c := by
  by_cases ha : a.ofApi
  · cases plan_apiMove h ha with
    | request hmove => exact Or.inl (hmove.subset_calls hc)
    | @advance c₀ _ _ hmove =>
      by_cases hsame : c = c₀
      · exact Or.inr (Or.inl (by rw [hsame]))
      · exact Or.inl (hmove.subset_calls ((List.mem_erase_of_ne hsame).mpr hc))
    | @abort c₀ _ =>
      by_cases hsame : c = c₀
      · exact Or.inr (Or.inr (by rw [hsame]))
      · exact Or.inl (c₀.subset_onError _ ((List.mem_erase_of_ne hsame).mpr hc))
  · rw [(plan_move h (by simpa using ha)).calls.1]
    exact Or.inl hc

end VocalCoach
