/-
# Failed admissions

`Enqueue` and `Retry` of `analysis.Service` are chains of effects on the recordings, the table
`analyses` and the stream `analyses:run`, with a return after each; only some of the returns
undo what came before.

A call runs in a `Course`: what others do before each of its operations, and which of its
operations fail.  What nobody else touches is as it was before the call (`Unchanged`) when a
call of `Enqueue` returns an error, apart from that of its own `XADD`, if and only if what it
has done is undone (`Course.Undone`); and when a call of `Retry` does, if and only if it has
not updated the row yet (`admission_unchanged`).

The raw upload, which `Enqueue` always removes, is left out.
-/
import VocalCoach.Fallible
import VocalCoach.FileStore
import VocalCoach.Records
import VocalCoach.Streams
import Mathlib.Logic.Function.Basic

namespace VocalCoach

open RedisStream Storage Fallible

namespace Admission

/-! ## What a call runs against -/

/-- The operations of the two calls on whatever is outside. -/
inductive Operation
  | getAnalysis
  | getSong
  | allow
  | length
  | writeTemp
  | sniffFile
  | probe
  | transcode
  | create
  | remove
  | enqueueIfUnderLimit
  | delete
  | setQueueStreamId
  | recalculatePositions
  | retryToWaitingForReference
  | retry
  /-- The `GetByID` of `AnalysisRepository.Retry`, when no row matches. -/
  | getExisting
  | enqueue
  deriving DecidableEq, Repr

/-- The errors of `domain` the calls return, and that of an operation that fails. -/
inductive Error
  | notFound
  | referencePrepFailed
  | analysisRateLimited (retryAfter : ℕ)
  | queueFull
  | audioTooLarge
  | unsupportedAudioFormat
  | audioTooLong
  | analysisNotFailed
  | failed (op : Operation)
  deriving DecidableEq, Repr

structure Settings where
  queueMaxLength : ℕ
  maxUploadBytes : ℕ
  maxAudioSeconds : ℕ

/-- What is uploaded: its size, whether `SniffFile` knows the format, and what `ffprobe` says. -/
structure Upload where
  bytes : ℕ := 0
  sniffed : Bool := true
  hasAudio : Bool := true
  seconds : ℕ := 0

/-- The tables, `analyses:run`, and the canonical recordings by the id of their analysis. -/
structure Stores where
  db : Database := {}
  run : Stream AnalysisId := {}
  recordings : FileStore AnalysisId := {}

/-- What goes on around one call. -/
structure Course where
  /-- What others do before an operation. -/
  others : Operation → Stores → Stores := fun _ s => s
  fails : Operation → Bool := fun _ => false
  /-- The answer of the rate limiter: when to come back, if not now. -/
  retryAfter : Option ℕ := none
  /-- `ffmpeg` leaves a part of its output when it fails. -/
  leavesOutput : Bool := false
  now : Time := 0

/-- A call returns, or ends with an error where it stands. -/
abbrev Call (α : Type) := EStateM Error Stores α

variable (course : Course) (cfg : Settings)

/-- One operation: it finds what others have left, and leaves that if it fails. -/
def operation {α : Type} (op : Operation) (f : Stores → Except Error (α × Stores)) : Call α :=
  fun s =>
    let found := course.others op s
    if course.fails op then .error (.failed op) found
    else
      match f found with
      | .ok (a, t) => .ok a t
      | .error e => .error e found

/-- An operation that changes nothing. -/
def query {α : Type} (op : Operation) (f : Stores → Except Error α) : Call α :=
  operation course op fun s => (f s).map fun a => (a, s)

/-! ## The operations -/

/-- `analysis.Service.analyses.GetByID`. -/
def getAnalysis (op : Operation) (id : AnalysisId) (userId : UserId) : Call Analysis :=
  query course op fun s =>
    match s.db.analyses.find? fun a => a.id = id ∧ a.userId = userId with
    | some a => .ok a
    | none => .error .notFound

/-- `analysis.Service.songs.GetByID`. -/
def getSong (songId : SongId) : Call Song :=
  query course .getSong fun s =>
    match s.db.song songId with
    | some song => .ok song
    | none => .error .notFound

/-- `rateLimiter.Allow`, and what `Enqueue` makes of its answer. -/
def allow : Call Unit :=
  query course .allow fun _ =>
    match course.retryAfter with
    | some retryAfter => .error (.analysisRateLimited retryAfter)
    | none => .ok ()

/-- `queue.Length`. -/
def length : Call ℕ := query course .length fun s => .ok s.run.xlen

/-- `files.WriteTemp`. -/
def writeTemp (upload : Upload) : Call Unit :=
  query course .writeTemp fun _ =>
    if cfg.maxUploadBytes < upload.bytes then .error .audioTooLarge else .ok ()

/-- `media.SniffFile`. -/
def sniffFile (upload : Upload) : Call Bool := query course .sniffFile fun _ => .ok upload.sniffed

/-- `processor.Probe`. -/
def probe (upload : Upload) : Call ℕ :=
  query course .probe fun _ =>
    if upload.hasAudio then .ok upload.seconds else .error .unsupportedAudioFormat

/-- The recording is there. -/
def Stores.recorded (id : AnalysisId) (now : Time) (s : Stores) : Stores :=
  { s with recordings := s.recordings.write id now }

/-- `processor.Transcode`.  The output of an `ffmpeg` that fails may be there all the same. -/
def transcode (id : AnalysisId) : Call Unit := fun s =>
  let found := course.others .transcode s
  if course.fails .transcode then
    .error (.failed .transcode) (if course.leavesOutput then found.recorded id course.now else found)
  else .ok () (found.recorded id course.now)

/-- The row is there. -/
def Stores.created (id : AnalysisId) (userId : UserId) (songId : SongId) (status : AnalysisStatus)
    (mode : AnalysisMode) (now : Time) (s : Stores) : Stores :=
  { s with db := s.db.create id userId songId status mode now }

/-- `analyses.Create`, which fails if the song is gone. -/
def create (id : AnalysisId) (userId : UserId) (songId : SongId) (status : AnalysisStatus)
    (mode : AnalysisMode) : Call Analysis :=
  operation course .create fun s =>
    if (s.db.song songId).isNone then .error (.failed .create)
    else
      let row : Analysis :=
        { id, userId, songId, status, mode, queueSeq := s.db.nextSeq, queuedAt := course.now }
      .ok (row, s.created id userId songId status mode course.now)

/-- `_ = files.Remove`: an error is ignored. -/
def removeRecording (id : AnalysisId) : Call Unit :=
  tryCatch
    (operation course .remove fun s => .ok ((), { s with recordings := s.recordings.remove id }))
    fun _ => pure ()

/-- `queue.EnqueueIfUnderLimit`: the id of the new entry, if there is room for it. -/
def enqueueIfUnderLimit (id : AnalysisId) : Call (Option EntryId) :=
  operation course .enqueueIfUnderLimit fun s =>
    if cfg.queueMaxLength ≤ s.run.xlen then .ok (none, s)
    else .ok (some (s.run.lastId + 1), { s with run := s.run.xadd id })

/-- `analyses.Delete`. -/
def delete (id : AnalysisId) : Call Unit :=
  operation course .delete fun s => .ok ((), { s with db := s.db.delete id })

/-- `analyses.SetQueueStreamID`. -/
def setQueueStreamId (id : AnalysisId) (entry : EntryId) : Call Unit :=
  operation course .setQueueStreamId fun s =>
    if (s.db.analysis id).isNone then .error .notFound
    else .ok ((), { s with db := s.db.setQueueStreamId id entry })

/-- `analyses.RecalculatePositions`. -/
def recalculatePositions : Call (List (AnalysisId × ℕ)) :=
  operation course .recalculatePositions fun s =>
    .ok (s.db.changedPositions, { s with db := s.db.recalculatePositions })

/-- `analyses.Retry` and `analyses.RetryToWaitingForReference`. -/
def retryRow (op : Operation) (status : AnalysisStatus) (id : AnalysisId) (userId : UserId) :
    Call Analysis := do
  let updated ← operation course op fun s =>
    .ok ((s.db.analyses.find? (Analysis.retryable id userId)).map
      (Analysis.retried status s.db.nextSeq course.now),
      { s with db := s.db.retryAs status id userId course.now })
  match updated with
  | some a => return a
  | none =>
      -- no row matches: find out why
      let _ ← getAnalysis course .getExisting id userId
      throw .analysisNotFailed

/-- `queue.Enqueue`. -/
def publish (id : AnalysisId) : Call EntryId :=
  operation course .enqueue fun s => .ok (s.run.lastId + 1, { s with run := s.run.xadd id })

/-! ## The two calls -/

/-- `Enqueue` up to the validation of the recording: whether the song is ready. -/
def enqueueChecks (songId : SongId) (upload : Upload) : Call Bool := do
  let song ← getSong course songId
  if song.prepStatus = .failed then
    throw .referencePrepFailed
  let songReady := decide (song.prepStatus = .ready)
  allow course
  if songReady then
    let queueLen ← length course
    if cfg.queueMaxLength ≤ queueLen then
      throw .queueFull
  writeTemp course cfg upload
  let sniffed ← sniffFile course upload
  if !sniffed then
    throw .unsupportedAudioFormat
  let seconds ← probe course upload
  if cfg.maxAudioSeconds < seconds then
    throw .audioTooLong
  return songReady

/-- The last two operations of both calls, and what the calls return. -/
def finish (id : AnalysisId) (a : Analysis) (entry : EntryId) :
    Call (Analysis × List (AnalysisId × ℕ)) := do
  setQueueStreamId course id entry
  let positions ← recalculatePositions course
  return ({ a with queueStreamId := some entry, queuePosition := positions.lookup id }, positions)

/-- `Create` in `Enqueue`, which removes the recording if it fails. -/
def createOrRemove (analysisId : AnalysisId) (userId : UserId) (songId : SongId)
    (initialStatus : AnalysisStatus) (mode : AnalysisMode) : Call Analysis :=
  tryCatch (create course analysisId userId songId initialStatus mode) fun e => do
    removeRecording course analysisId
    throw e

/-- `Enqueue` from the admission on. -/
def admitCreated (analysisId : AnalysisId) (created : Analysis) :
    Call (Analysis × List (AnalysisId × ℕ)) := do
  let streamEntryId ← enqueueIfUnderLimit course cfg analysisId
  match streamEntryId with
  | none =>
      removeRecording course analysisId
      delete course analysisId
      throw .queueFull
  | some entry => finish course analysisId created entry

/-- `Enqueue` from the transcoding on. -/
def enqueueTranscoded (analysisId : AnalysisId) (userId : UserId) (songId : SongId) (mode : AnalysisMode)
    (songReady : Bool) : Call (Analysis × List (AnalysisId × ℕ)) := do
  transcode course analysisId
  let initialStatus := if songReady then AnalysisStatus.queued else .waitingForReference
  let created ← createOrRemove course analysisId userId songId initialStatus mode
  if !songReady then
    return (created, [])
  admitCreated course cfg analysisId created

/-- `Enqueue`; `analysisId` is drawn by `uuid.New`. -/
def enqueue (analysisId : AnalysisId) (userId : UserId) (songId : SongId) (mode : AnalysisMode)
    (upload : Upload) : Call (Analysis × List (AnalysisId × ℕ)) := do
  let songReady ← enqueueChecks course cfg songId upload
  enqueueTranscoded course cfg analysisId userId songId mode songReady

/-- `Retry` of an analysis whose song is ready. -/
def retryReady (id : AnalysisId) (userId : UserId) : Call (Analysis × List (AnalysisId × ℕ)) := do
  let queueLen ← length course
  if cfg.queueMaxLength ≤ queueLen then
    throw .queueFull
  let retried ← retryRow course .retry .queued id userId
  let entry ← publish course id
  finish course id retried entry

/-- `Retry`. -/
def retry (id : AnalysisId) (userId : UserId) : Call (Analysis × List (AnalysisId × ℕ)) := do
  let existing ← getAnalysis course .getAnalysis id userId
  let song ← getSong course existing.songId
  if song.prepStatus = .failed then
    throw .referencePrepFailed
  if !song.readyForAnalysis then
    let retried ← retryRow course .retryToWaitingForReference .waitingForReference id userId
    return (retried, [])
  retryReady course cfg id userId

/-! ## What the stores hold of an analysis -/

/-- What the stores hold of one analysis: the owner and status of its rows, its entries of
`analyses:run`, and whether its recording is there. -/
structure Held where
  rows : List (UserId × AnalysisStatus) := []
  entries : List EntryId := []
  recorded : Bool := false
  deriving DecidableEq, Repr

def Stores.held (s : Stores) (id : AnalysisId) : Held where
  rows := (s.db.analyses.filter fun a => a.id = id).map fun a => (a.userId, a.status)
  entries := (s.run.entries.filter fun x => x.fields = id).map Entry.id
  recorded := s.recordings.Has id

/-- The others leave the analysis alone. -/
def Course.Spares (id : AnalysisId) : Prop := ∀ op s, (course.others op s).held id = s.held id

/-- Of every analysis the others leave alone, the stores hold what they did. -/
def Unchanged (s t : Stores) : Prop := ∀ id, course.Spares id → t.held id = s.held id

/-- Of every analysis the others leave alone, the stores hold what they did in `s`, but of
`id` they hold `x`. -/
def Course.Leaves (s : Stores) (id : AnalysisId) (x : Held) (t : Stores) : Prop :=
  ∀ other, course.Spares other → t.held other = if other = id then x else s.held other

variable {course : Course} {cfg : Settings} {s t u : Stores} {id other : AnalysisId} {x : Held}
  {userId : UserId} {songId : SongId} {mode : AnalysisMode} {e : Error}

namespace Course.Leaves

theorem refl (course : Course) (s : Stores) (id : AnalysisId) :
    course.Leaves s id (s.held id) s := by
  intro other _
  split
  next h => rw [h]
  next => rfl

theorem others (op : Operation) (h : course.Leaves s id x t) :
    course.Leaves s id x (course.others op t) := fun other hother =>
  (hother op t).trans (h other hother)

/-- The call changes what is held of its own analysis only. -/
theorem own {g : Held → Held} (h : course.Leaves s id x t)
    (hu : ∀ other, u.held other = if other = id then g (t.held id) else t.held other) :
    course.Leaves s id (g x) u := by
  intro other hother
  rw [hu other]
  by_cases hid : other = id
  · subst hid
    rw [if_pos rfl, if_pos rfl, h other hother, if_pos rfl]
  · rw [if_neg hid, if_neg hid, h other hother, if_neg hid]

/-- The call changes nothing of what is held. -/
theorem same (h : course.Leaves s id x t) (hu : u.held = t.held) : course.Leaves s id x u :=
  fun other hother => by rw [hu, h other hother]

theorem unchanged (h : course.Leaves s id (s.held id) t) : Unchanged course s t := by
  intro other hother
  rw [h other hother]
  split
  next hid => rw [hid]
  next => rfl

/-- Of its own analysis, a call that nobody disturbs leaves what it held. -/
theorem unchanged_iff (h : course.Leaves s id x t) (hspares : course.Spares id) :
    Unchanged course s t ↔ x = s.held id := by
  constructor
  · intro hunchanged
    rw [← hunchanged id hspares, h id hspares, if_pos rfl]
  · rintro rfl
    exact h.unchanged

end Course.Leaves

/-! ## What an operation leaves -/

section Held

theorem held_recorded (now : Time) (s : Stores) (other : AnalysisId) :
    (s.recorded id now).held other
      = if other = id then { s.held id with recorded := true } else s.held other := by
  have hhas : (s.recorded id now).recordings.Has other ↔ other = id ∨ s.recordings.Has other :=
    FileStore.has_write
  by_cases hid : other = id
  · subst hid
    rw [if_pos rfl]
    unfold Stores.held
    rw [decide_eq_true (hhas.mpr (Or.inl rfl))]
    rfl
  · have hsame : decide ((s.recorded id now).recordings.Has other) = decide (s.recordings.Has other) :=
      decide_eq_decide.mpr (hhas.trans (or_iff_right hid))
    rw [if_neg hid]
    unfold Stores.held
    rw [hsame]
    rfl

theorem held_removed (s : Stores) (other : AnalysisId) :
    Stores.held { s with recordings := s.recordings.remove id } other
      = if other = id then { s.held id with recorded := false } else s.held other := by
  have hhas : (s.recordings.remove id).Has other ↔ other ≠ id ∧ s.recordings.Has other :=
    FileStore.has_remove
  by_cases hid : other = id
  · subst hid
    rw [if_pos rfl]
    unfold Stores.held
    dsimp only
    rw [decide_eq_false fun h => (hhas.mp h).1 rfl]
  · have hsame : decide ((s.recordings.remove id).Has other) = decide (s.recordings.Has other) :=
      decide_eq_decide.mpr (hhas.trans (and_iff_right hid))
    rw [if_neg hid]
    unfold Stores.held
    dsimp only
    rw [hsame]

theorem held_created (status : AnalysisStatus) (now : Time) (s : Stores) (other : AnalysisId) :
    (s.created id userId songId status mode now).held other
      = if other = id then { s.held id with rows := (s.held id).rows ++ [(userId, status)] }
        else s.held other := by
  unfold Stores.held Stores.created Database.create
  dsimp only
  rw [List.filter_append, List.map_append]
  split
  next h => simp [h]
  next h => simp [Ne.symm h]

theorem held_deleted (s : Stores) (other : AnalysisId) :
    Stores.held { s with db := s.db.delete id } other
      = if other = id then { s.held id with rows := [] } else s.held other := by
  unfold Stores.held Database.delete
  dsimp only
  rw [List.filter_filter]
  split
  next h => simp [h]
  next h =>
    have hsame : ∀ a ∈ s.db.analyses, (decide (a.id = other) && decide (a.id ≠ id))
        = decide (a.id = other) := by
      intro a _
      by_cases ha : a.id = other
      · simp [ha, h]
      · simp [ha]
    rw [List.filter_congr hsame]

theorem held_published (s : Stores) (other : AnalysisId) :
    Stores.held { s with run := s.run.xadd id } other
      = if other = id then { s.held id with entries := (s.held id).entries ++ [s.run.lastId + 1] }
        else s.held other := by
  unfold Stores.held Stream.xadd
  dsimp only
  rw [List.filter_append, List.map_append]
  split
  next h => simp [h]
  next h => simp [Ne.symm h]

/-- The rows of an analysis after an update that keeps ids. -/
theorem held_updateAnalyses {p : Analysis → Bool} {f : Analysis → Analysis}
    (hf : ∀ a, p a = true → (f a).id = a.id) (db : Database) (other : AnalysisId) :
    ((db.updateAnalyses p f).analyses.filter fun a => a.id = other)
      = (db.analyses.filter fun a => a.id = other).map fun a => if p a then f a else a := by
  unfold Database.updateAnalyses
  dsimp only
  rw [List.filter_map]
  congr 1
  refine List.filter_congr fun a _ => ?_
  rw [Function.comp_apply]
  split
  next h => rw [hf a h]
  next => rfl

/-- An update that keeps ids, owners and statuses. -/
theorem held_kept {p : Analysis → Bool} {f : Analysis → Analysis}
    (hf : ∀ a, p a = true → (f a).id = a.id ∧ (f a).userId = a.userId ∧ (f a).status = a.status)
    (s : Stores) : Stores.held { s with db := s.db.updateAnalyses p f } = s.held := by
  funext other
  unfold Stores.held
  dsimp only
  rw [held_updateAnalyses fun a h => (hf a h).1, List.map_map]
  congr 1
  refine List.map_congr_left fun a _ => ?_
  rw [Function.comp_apply]
  split
  next h => rw [(hf a h).2.1, (hf a h).2.2]
  next => rfl

theorem held_retried (status : AnalysisStatus) (now : Time) (s : Stores) (other : AnalysisId) :
    Stores.held { s with db := s.db.retryAs status id userId now } other
      = if other = id then
          { s.held id with
            rows := (s.held id).rows.map fun r =>
              if r = (userId, .failed) then (userId, status) else r }
        else s.held other := by
  have hrows : (((s.db.retryAs status id userId now).analyses.filter fun a => a.id = other).map
      fun a => (a.userId, a.status)) = (s.db.analyses.filter fun a => a.id = other).map fun a =>
        if a.retryable id userId then (userId, status) else (a.userId, a.status) := by
    have hupdate := held_updateAnalyses (p := Analysis.retryable id userId)
      (f := Analysis.retried status s.db.nextSeq now) (fun _ _ => rfl) s.db other
    unfold Database.retryAs
    dsimp only
    rw [hupdate, List.map_map]
    refine List.map_congr_left fun a _ => ?_
    rw [Function.comp_apply]
    split
    next h =>
      obtain ⟨-, howner, -⟩ := of_decide_eq_true h
      rw [← howner]
      rfl
    next => rfl
  unfold Stores.held
  dsimp only
  rw [hrows]
  by_cases hid : other = id
  · subst hid
    rw [if_pos rfl, List.map_map]
    congr 1
    refine List.map_congr_left fun a ha => ?_
    have hother : a.id = other := of_decide_eq_true (List.mem_filter.mp ha).2
    simp [Analysis.retryable, hother]
  · rw [if_neg hid]
    congr 1
    refine List.map_congr_left fun a ha => ?_
    have hother : a.id = other := of_decide_eq_true (List.mem_filter.mp ha).2
    have hnot : ¬ a.retryable id userId = true := fun h =>
      hid (hother.symm.trans (of_decide_eq_true h).1)
    rw [if_neg hnot]

end Held

/-! ## How an operation ends -/

section Ends

variable {α : Type} {op : Operation} {f : Stores → Except Error (α × Stores)} {I : Stores → Prop}

theorem operation_ok {a : α} (h : operation course op f s = .ok a t) :
    course.fails op = false ∧ f (course.others op s) = .ok (a, t) := by
  unfold operation at h
  dsimp only at h
  split at h
  next => cases h
  next hfails =>
    refine ⟨Bool.eq_false_iff.mpr hfails, ?_⟩
    cases hf : f (course.others op s) with
    | ok r =>
      rw [hf] at h
      cases h
      rfl
    | error e =>
      rw [hf] at h
      cases h

/-- An operation that ends with an error leaves what it has found. -/
theorem operation_error (h : operation course op f s = .error e t) :
    t = course.others op s ∧ (course.fails op = true ∧ e = .failed op ∨
      course.fails op = false ∧ f (course.others op s) = .error e) := by
  unfold operation at h
  dsimp only at h
  split at h
  next hfails =>
    cases h
    exact ⟨rfl, Or.inl ⟨hfails, rfl⟩⟩
  next hfails =>
    cases hf : f (course.others op s) with
    | ok r =>
      rw [hf] at h
      cases h
    | error e' =>
      rw [hf] at h
      cases h
      exact ⟨rfl, Or.inr ⟨Bool.eq_false_iff.mpr hfails, rfl⟩⟩

theorem preserves_operation (hothers : ∀ s, I s → I (course.others op s))
    (hf : ∀ s a t, I s → f s = .ok (a, t) → I t) : Preserves I (operation course op f) := by
  intro s hs
  cases h : operation course op f s with
  | ok a t => exact hf _ a t (hothers s hs) (operation_ok h).2
  | error e t => exact (operation_error h).1 ▸ hothers s hs

/-- A query leaves everything as it is. -/
theorem preserves_query {f : Stores → Except Error α} :
    Preserves (course.Leaves s id x) (query course op f) := by
  refine preserves_operation (fun _ hs => hs.others op) fun t a u ht h => ?_
  cases hf : f t with
  | ok b =>
    rw [hf] at h
    cases h
    exact ht
  | error e =>
    rw [hf] at h
    cases h

end Ends

/-- The checks of `Enqueue` leave everything as it is. -/
theorem preserves_enqueueChecks (songId : SongId) (upload : Upload) :
    Preserves (course.Leaves s id x) (enqueueChecks course cfg songId upload) := by
  have hupload : ∀ songReady : Bool, Preserves (course.Leaves s id x) (do
      writeTemp course cfg upload
      let sniffed ← sniffFile course upload
      if !sniffed then
        throw .unsupportedAudioFormat
      let seconds ← probe course upload
      if cfg.maxAudioSeconds < seconds then
        throw .audioTooLong
      return songReady) := fun songReady =>
    preserves_query.bind fun _ => preserves_query.bind fun _ => preserves_guard
      (preserves_query.bind fun _ => preserves_guard (preserves_pure songReady))
  refine preserves_query.bind fun song => preserves_guard (preserves_query.bind fun _ => ?_)
  refine preserves_ite ?_ (hupload _)
  exact preserves_query.bind fun _ => preserves_guard (hupload _)

/-- The last two operations leave everything as it is. -/
theorem preserves_finish (own : AnalysisId) (a : Analysis) (entry : EntryId) :
    Preserves (course.Leaves s id x) (finish course own a entry) := by
  have hset : Preserves (course.Leaves s id x) (setQueueStreamId course own entry) := by
    refine preserves_operation (fun _ hs => hs.others _) fun u _ v hu h => ?_
    split at h
    next => cases h
    next =>
      cases h
      exact hu.same (held_kept (f := Analysis.withStreamId entry) (fun _ _ => ⟨rfl, rfl, rfl⟩) u)
  have hrecalculate : Preserves (course.Leaves s id x) (recalculatePositions course) := by
    refine preserves_operation (fun _ hs => hs.others _) fun u _ v hu h => ?_
    cases h
    exact hu.same (held_kept (f := fun a => a.atPosition (u.db.rowNumber a))
      (fun _ _ => ⟨rfl, rfl, rfl⟩) u)
  exact hset.bind fun _ => hrecalculate.bind fun _ => preserves_pure _

/-! ## What a failed `Enqueue` leaves -/

/-- What `Create` finds. -/
def Course.foundByCreate (course : Course) (id : AnalysisId) (s : Stores) : Stores :=
  course.others .create ((course.others .transcode s).recorded id course.now)

/-- What `EnqueueIfUnderLimit` finds. -/
def Course.foundByAdmission (course : Course) (id : AnalysisId) (userId : UserId) (songId : SongId)
    (mode : AnalysisMode) (s : Stores) : Stores :=
  course.others .enqueueIfUnderLimit
    ((course.foundByCreate id s).created id userId songId .queued mode course.now)

/-- `Create` fails. -/
def Course.CreateFails (course : Course) (songId : SongId) (found : Stores) : Prop :=
  course.fails .create = true ∨ (found.db.song songId).isNone = true

instance (course : Course) (songId : SongId) (found : Stores) :
    Decidable (course.CreateFails songId found) :=
  inferInstanceAs (Decidable (_ ∨ _))

/-- What `Enqueue` has done is undone if it ends with an error: an `ffmpeg` that fails leaves
nothing, the recording can be removed, and when the row has been created the queue turns out
to be full and the row can be deleted. -/
def Course.Undone (course : Course) (cfg : Settings) (id : AnalysisId) (userId : UserId)
    (songId : SongId) (mode : AnalysisMode) (s : Stores) : Prop :=
  if course.fails .transcode then course.leavesOutput = false
  else if course.CreateFails songId (course.foundByCreate id s) then course.fails .remove = false
  else
    cfg.queueMaxLength ≤ (course.foundByAdmission id userId songId mode s).run.xlen ∧
      course.fails .remove = false ∧ course.fails .delete = false

/-- Removing a recording is attempted, and goes on either way. -/
theorem removeRecording_ok (h : course.Leaves s id x t) :
    ∃ u, removeRecording course id t = .ok () u ∧
      course.Leaves s id { x with recorded := x.recorded && course.fails .remove } u := by
  have hfound := h.others .remove
  by_cases hfails : course.fails .remove = true
  · refine ⟨course.others .remove t, ?_, ?_⟩
    · change EStateM.tryCatch (operation course .remove _) _ t = _
      unfold EStateM.tryCatch operation
      rw [if_pos hfails]
      rfl
    · rw [hfails, Bool.and_true]
      exact hfound
  · refine ⟨{ course.others .remove t with
      recordings := (course.others .remove t).recordings.remove id }, ?_, ?_⟩
    · change EStateM.tryCatch (operation course .remove _) _ t = _
      unfold EStateM.tryCatch operation
      rw [if_neg hfails]
    · rw [Bool.eq_false_iff.mpr hfails, Bool.and_false]
      exact hfound.own (g := fun y => { y with recorded := false }) (held_removed _)

/-- If `ffmpeg` fails, its output may be left. -/
theorem transcode_error (h : course.Leaves s id x t) (htranscode : transcode course id t = .error e u) :
    course.fails .transcode = true ∧
      course.Leaves s id { x with recorded := x.recorded || course.leavesOutput } u := by
  have hfound := h.others .transcode
  unfold transcode at htranscode
  dsimp only at htranscode
  split at htranscode
  next hfails =>
    cases htranscode
    refine ⟨hfails, ?_⟩
    split
    next hleaves =>
      rw [hleaves, Bool.or_true]
      exact hfound.own (g := fun y => { y with recorded := true }) (held_recorded course.now _)
    next hleaves =>
      rw [Bool.eq_false_iff.mpr hleaves, Bool.or_false]
      exact hfound
  next => cases htranscode

theorem transcode_ok (h : course.Leaves s id x t) (htranscode : transcode course id t = .ok () u) :
    course.fails .transcode = false ∧ u = (course.others .transcode t).recorded id course.now ∧
      course.Leaves s id { x with recorded := true } u := by
  unfold transcode at htranscode
  dsimp only at htranscode
  split at htranscode
  next => cases htranscode
  next hfails =>
    cases htranscode
    exact ⟨Bool.eq_false_iff.mpr hfails, rfl, (h.others .transcode).own
      (g := fun y => { y with recorded := true }) (held_recorded course.now _)⟩

/-- If the row is not created, the recording is left only if it cannot be removed. -/
theorem createOrRemove_error {status : AnalysisStatus} (h : course.Leaves s id x t)
    (hcreate : createOrRemove course id userId songId status mode t = .error e u) :
    course.CreateFails songId (course.others .create t) ∧
      course.Leaves s id { x with recorded := x.recorded && course.fails .remove } u := by
  obtain ⟨e', t₁, hcreate, hhandled⟩ := error_of_tryCatch hcreate
  obtain ⟨rfl, hwhy⟩ := operation_error hcreate
  obtain ⟨t₂, hremove, hleft⟩ := removeRecording_ok (h.others .create)
  rw [bind_of_ok hremove] at hhandled
  cases hhandled
  refine ⟨hwhy.imp And.left fun hgone => ?_, hleft⟩
  by_contra hsong
  have hdone := hgone.2
  split at hdone
  next hnone => exact hsong hnone
  next => cases hdone

theorem createOrRemove_ok {status : AnalysisStatus} {created : Analysis}
    (h : course.Leaves s id x t)
    (hcreate : createOrRemove course id userId songId status mode t = .ok created u) :
    ¬ course.CreateFails songId (course.others .create t) ∧
      u = (course.others .create t).created id userId songId status mode course.now ∧
      course.Leaves s id { x with rows := x.rows ++ [(userId, status)] } u := by
  have hfound := h.others .create
  rcases ok_of_tryCatch hcreate with hcreate | ⟨e', t₁, hcreate, hhandled⟩
  · obtain ⟨hsucceeds, hrow⟩ := operation_ok hcreate
    split at hrow
    next => cases hrow
    next hsong =>
      cases hrow
      refine ⟨?_, rfl, hfound.own (g := fun y => { y with rows := y.rows ++ [(userId, status)] })
        (held_created status course.now _)⟩
      rintro (hfails | hgone)
      · exact absurd (hsucceeds.symm.trans hfails) nofun
      · exact hsong hgone
  · -- the handler never returns
    obtain ⟨rfl, -⟩ := operation_error hcreate
    obtain ⟨t₂, hremove, -⟩ := removeRecording_ok hfound
    rw [bind_of_ok hremove] at hhandled
    cases hhandled

/-- **The admission of a row that has been created**, apart from a failing `XADD`: the row and
the recording are gone, if the queue is full and both can be removed. -/
theorem admitCreated_error {created : Analysis} {r : UserId × AnalysisStatus}
    (h : course.Leaves s id { rows := [r], recorded := true } t)
    (hcreated : admitCreated course cfg id created t = .error e u)
    (hadmission : e ≠ .failed .enqueueIfUnderLimit) :
    ∃ x, course.Leaves s id x u ∧ (x = {} ↔
      cfg.queueMaxLength ≤ (course.others .enqueueIfUnderLimit t).run.xlen ∧
        course.fails .remove = false ∧ course.fails .delete = false) := by
  have hfound := h.others .enqueueIfUnderLimit
  rcases error_of_bind hcreated with hcreated | ⟨streamEntryId, t₁, hcreated, hrest⟩
  · -- the `XADD` itself fails
    rcases (operation_error hcreated).2 with ⟨-, rfl⟩ | ⟨-, hnever⟩
    · exact absurd rfl hadmission
    · split at hnever <;> cases hnever
  obtain ⟨-, hanswer⟩ := operation_ok hcreated
  split at hanswer
  next hlength =>
    -- the queue is full
    cases hanswer
    obtain ⟨t₂, hremove, hremoved⟩ := removeRecording_ok hfound
    dsimp only at hrest
    rw [bind_of_ok hremove] at hrest
    have hfound' := hremoved.others .delete
    rcases error_of_bind hrest with hdelete | ⟨_, t₃, hdelete, hrest⟩
    · obtain ⟨rfl, ⟨hfails, -⟩ | ⟨-, hnever⟩⟩ := operation_error hdelete
      · refine ⟨_, hfound', iff_of_false (fun hx => ?_) fun hx => ?_⟩
        · exact absurd (congrArg Held.rows hx) (List.cons_ne_nil _ _)
        · rw [hfails] at hx
          exact absurd hx.2.2 nofun
      · cases hnever
    · obtain ⟨hsucceeds, hdeleted⟩ := operation_ok hdelete
      cases hdeleted
      cases hrest
      refine ⟨_, hfound'.own (g := fun y => { y with rows := [] }) (held_deleted _), ?_⟩
      rw [Bool.true_and]
      exact ⟨fun hx => ⟨hlength, congrArg Held.recorded hx, hsucceeds⟩, fun hx => by rw [hx.2.1]⟩
  next hlength =>
    -- the job is published, and one of the last two operations fails
    cases hanswer
    set found := course.others .enqueueIfUnderLimit t
    have hpublished := hfound.own
      (g := fun y => { y with entries := y.entries ++ [found.run.lastId + 1] })
      (held_published found)
    refine ⟨_, (preserves_finish id created _).of_error hpublished hrest,
      iff_of_false (fun hx => ?_) fun hx => absurd hx.1 hlength⟩
    exact absurd (congrArg Held.rows hx) (List.cons_ne_nil _ _)

/-- **What a failed `Enqueue` leaves**: nothing of its own analysis, if what it has done is
undone. -/
theorem enqueueTranscoded_error {songReady : Bool} (hblank : course.Leaves s id {} t)
    (h : enqueueTranscoded course cfg id userId songId mode songReady t = .error e u)
    (hadmission : e ≠ .failed .enqueueIfUnderLimit) :
    ∃ x, course.Leaves s id x u ∧ (x = {} ↔ course.Undone cfg id userId songId mode t) := by
  unfold Course.Undone Course.foundByAdmission Course.foundByCreate
  rcases error_of_bind h with htranscode | ⟨_, t₁, htranscode, h⟩
  · obtain ⟨hfails, hleft⟩ := transcode_error hblank htranscode
    refine ⟨_, hleft, ?_⟩
    rw [if_pos hfails, Bool.false_or]
    exact ⟨fun hx => congrArg Held.recorded hx, fun hx => by rw [hx]⟩
  obtain ⟨hsucceeds, rfl, hrecorded⟩ := transcode_ok hblank htranscode
  rw [if_neg (by rw [hsucceeds]; exact nofun)]
  rcases error_of_bind h with hcreate | ⟨created, t₂, hcreate, h⟩
  · obtain ⟨hfails, hleft⟩ := createOrRemove_error hrecorded hcreate
    refine ⟨_, hleft, ?_⟩
    rw [if_pos hfails, Bool.true_and]
    exact ⟨fun hx => congrArg Held.recorded hx, fun hx => by rw [hx]⟩
  obtain ⟨hcreates, rfl, hrow⟩ := createOrRemove_ok hrecorded hcreate
  rw [if_neg hcreates]
  cases songReady with
  | false => cases h
  | true => exact admitCreated_error hrow h hadmission

/-! ## What a failed `Retry` leaves -/

/-- `Retry` of an analysis whose song is ready updates the row. -/
def Course.UpdatesRow (course : Course) (cfg : Settings) (id : AnalysisId) (userId : UserId)
    (s : Stores) : Prop :=
  course.fails .length = false ∧ (course.others .length s).run.xlen < cfg.queueMaxLength ∧
    course.fails .retry = false ∧
    ∃ a ∈ (course.others .retry (course.others .length s)).db.analyses,
      a.retryable id userId = true

/-- `Retry` finds the analysis, and its song ready. -/
def Course.FindsReady (course : Course) (id : AnalysisId) (userId : UserId) (s : Stores) : Prop :=
  course.fails .getAnalysis = false ∧ course.fails .getSong = false ∧
    ∃ a song, (course.others .getAnalysis s).db.analyses.find?
        (fun a => a.id = id ∧ a.userId = userId) = some a ∧
      (course.others .getSong (course.others .getAnalysis s)).db.song a.songId = some song ∧
      song.prepStatus = .ready

/-- `Retry` moves the row back to the queue. -/
def Course.Updates (course : Course) (cfg : Settings) (id : AnalysisId) (userId : UserId)
    (s : Stores) : Prop :=
  course.FindsReady id userId s ∧
    course.UpdatesRow cfg id userId (course.others .getSong (course.others .getAnalysis s))

section Query

variable {α : Type} {op : Operation} {f : Stores → Except Error α}

theorem query_ok {a : α} (h : query course op f s = .ok a t) :
    course.fails op = false ∧ t = course.others op s ∧ f (course.others op s) = .ok a := by
  obtain ⟨hsucceeds, hf⟩ := operation_ok h
  cases hfound : f (course.others op s) with
  | ok b =>
    rw [hfound] at hf
    cases hf
    exact ⟨hsucceeds, rfl, rfl⟩
  | error e =>
    rw [hfound] at hf
    cases hf

theorem query_error (h : query course op f s = .error e t) :
    course.fails op = true ∨ ∀ a, f (course.others op s) ≠ .ok a := by
  refine (operation_error h).2.imp And.left fun hf a ha => ?_
  have hnever := hf.2
  rw [ha] at hnever
  cases hnever

end Query

/-- A row that is not there is not updated. -/
theorem retryAs_of_forall {db : Database} {status : AnalysisStatus} {now : Time}
    (h : ∀ a ∈ db.analyses, a.retryable id userId = false) :
    db.retryAs status id userId now = db := by
  have hrows : (db.analyses.map fun a =>
      if a.retryable id userId then a.retried status db.nextSeq now else a) = db.analyses := by
    refine (List.map_congr_left fun a ha => ?_).trans (List.map_id' _)
    rw [h a ha, if_neg nofun]
  have hnone : db.analyses.any (Analysis.retryable id userId) = false :=
    List.any_eq_false.mpr fun a ha => by rw [h a ha]; exact nofun
  unfold Database.retryAs Database.updateAnalyses
  rw [hrows, hnone, if_neg nofun]

/-- **If the row is not updated**, it is because the update fails, or no row matches. -/
theorem retryRow_error {op : Operation} {status : AnalysisStatus} (h : course.Leaves s id x t)
    (hretry : retryRow course op status other userId t = .error e u) :
    course.Leaves s id x u ∧ (course.fails op = true ∨
      ∀ a ∈ (course.others op t).db.analyses, a.retryable other userId = false) := by
  have hfound := h.others op
  rcases error_of_bind hretry with hupdate | ⟨updated, t₁, hupdate, hrest⟩
  · obtain ⟨rfl, ⟨hfails, -⟩ | ⟨-, hnever⟩⟩ := operation_error hupdate
    · exact ⟨hfound, Or.inl hfails⟩
    · cases hnever
  obtain ⟨-, hanswer⟩ := operation_ok hupdate
  cases hfind : (course.others op t).db.analyses.find? (Analysis.retryable other userId) with
  | some a =>
    rw [hfind] at hanswer
    cases hanswer
    cases hrest
  | none =>
    have hnone : ∀ a ∈ (course.others op t).db.analyses, a.retryable other userId = false :=
      fun a ha => Bool.eq_false_iff.mpr (List.find?_eq_none.mp hfind a ha)
    rw [hfind, retryAs_of_forall hnone] at hanswer
    cases hanswer
    refine ⟨?_, Or.inr hnone⟩
    have hwhy : Preserves (course.Leaves s id x)
        (getAnalysis course .getExisting other userId >>= fun _ =>
          (throw .analysisNotFailed : Call Analysis)) :=
      preserves_query.bind fun _ => preserves_throw _
    exact hwhy.of_error hfound hrest

/-- An updated row was a failed one before. -/
theorem retryRow_ok {op : Operation} {status : AnalysisStatus} {a : Analysis}
    (h : course.Leaves s id x t) (hretry : retryRow course op status id userId t = .ok a u) :
    course.fails op = false ∧
      (∃ b ∈ (course.others op t).db.analyses, b.retryable id userId = true) ∧
      course.Leaves s id { x with
        rows := x.rows.map fun r => if r = (userId, .failed) then (userId, status) else r } u := by
  have hfound := h.others op
  obtain ⟨updated, t₁, hupdate, hrest⟩ := ok_of_bind hretry
  obtain ⟨hsucceeds, hanswer⟩ := operation_ok hupdate
  cases hfind : (course.others op t).db.analyses.find? (Analysis.retryable id userId) with
  | some b =>
    rw [hfind] at hanswer
    cases hanswer
    cases hrest
    refine ⟨hsucceeds, ⟨b, List.mem_of_find?_eq_some hfind, List.find?_some hfind⟩, ?_⟩
    exact hfound.own (g := fun y => { y with
      rows := y.rows.map fun r => if r = (userId, .failed) then (userId, status) else r })
      (held_retried status course.now _)
  | none =>
    rw [hfind] at hanswer
    cases hanswer
    obtain ⟨_, _, _, hnever⟩ := ok_of_bind hrest
    cases hnever

/-- `Retry` may move a row of the analysis. -/
theorem retryable_iff_mem_rows (s : Stores) :
    (∃ a ∈ s.db.analyses, a.retryable id userId = true) ↔
      (userId, .failed) ∈ (s.held id).rows := by
  constructor
  · rintro ⟨a, ha, hretryable⟩
    obtain ⟨hid, howner, hstatus⟩ := of_decide_eq_true hretryable
    exact List.mem_map.mpr ⟨a, List.mem_filter.mpr ⟨ha, decide_eq_true hid⟩,
      Prod.ext howner hstatus⟩
  · intro h
    obtain ⟨a, ha, hrow⟩ := List.mem_map.mp h
    obtain ⟨hmem, hid⟩ := List.mem_filter.mp ha
    obtain ⟨howner, hstatus⟩ := Prod.ext_iff.mp hrow
    exact ⟨a, hmem, decide_eq_true ⟨of_decide_eq_true hid, howner, hstatus⟩⟩

/-- Rows with a failed one are not the same once it is queued. -/
theorem map_retried_ne {rows : List (UserId × AnalysisStatus)} (hmem : (userId, .failed) ∈ rows) :
    (rows.map fun r => if r = (userId, .failed) then (userId, .queued) else r) ≠ rows := by
  intro h
  rw [← h] at hmem
  obtain ⟨r, -, hr⟩ := List.mem_map.mp hmem
  split at hr
  next => cases hr
  next hne => exact hne hr

/-- **`Retry` once the song is known to be ready**: what the stores hold of the analysis is the
same unless the row is updated. -/
theorem retryReady_error (h : course.Leaves s id x t)
    (hretried : retryReady course cfg id userId t = .error e u) :
    ∃ y, course.Leaves s id y u ∧
      (course.Spares id → (y = x ↔ ¬ course.UpdatesRow cfg id userId t)) := by
  have hlength := h.others .length
  rcases error_of_bind hretried with hread | ⟨queueLen, t₁, hread, hretried⟩
  · refine ⟨x, preserves_query.of_error h hread, fun _ => iff_of_true rfl fun hupdates => ?_⟩
    rcases query_error hread with hfails | hnever
    · exact absurd (hupdates.1.symm.trans hfails) nofun
    · exact hnever _ rfl
  obtain ⟨hlengthSucceeds, rfl, hqueueLen⟩ := query_ok hread
  cases hqueueLen
  rcases error_of_guard hretried with ⟨hfull, -, rfl⟩ | ⟨hroom, hretried⟩
  · exact ⟨x, hlength, fun _ => iff_of_true rfl fun hupdates => absurd hupdates.2.1 (Nat.not_lt.mpr hfull)⟩
  rcases error_of_bind hretried with hretry | ⟨retried, t₂, hretry, hretried⟩
  · obtain ⟨hleft, hwhy⟩ := retryRow_error hlength hretry
    refine ⟨x, hleft, fun _ => iff_of_true rfl fun hupdates => ?_⟩
    obtain ⟨-, -, hsucceeds, a, ha, hretryable⟩ := hupdates
    rcases hwhy with hfails | hnone
    · exact absurd (hsucceeds.symm.trans hfails) nofun
    · exact absurd (hretryable.symm.trans (hnone a ha)) nofun
  -- the row is updated, and one of the last three operations fails
  obtain ⟨hretrySucceeds, hrow, hupdated⟩ := retryRow_ok hlength hretry
  have hupdates : course.UpdatesRow cfg id userId t :=
    ⟨hlengthSucceeds, Nat.not_le.mp hroom, hretrySucceeds, hrow⟩
  have hchanged : ∀ entries, course.Spares id →
      ((⟨x.rows.map fun r => if r = (userId, .failed) then (userId, .queued) else r, entries,
        x.recorded⟩ : Held) = x ↔ ¬ course.UpdatesRow cfg id userId t) := by
    refine fun entries hspares => iff_of_false (fun hsame => ?_) fun hnot => hnot hupdates
    refine map_retried_ne ?_ (congrArg Held.rows hsame)
    rw [← (hlength.others .retry id hspares).trans (if_pos rfl)]
    exact (retryable_iff_mem_rows _).mp hrow
  have hfound := hupdated.others .enqueue
  rcases error_of_bind hretried with hpublish | ⟨entry, t₃, hpublish, hretried⟩
  · rw [(operation_error hpublish).1]
    exact ⟨_, hfound, hchanged _⟩
  · obtain ⟨-, hanswer⟩ := operation_ok hpublish
    cases hanswer
    set found := course.others .enqueue t₂
    have hpublished := hfound.own
      (g := fun y => { y with entries := y.entries ++ [found.run.lastId + 1] })
      (held_published found)
    exact ⟨_, (preserves_finish id retried _).of_error hpublished hretried, hchanged _⟩

/-- **What a failed `Retry` leaves** of the analysis is what there was, unless it has updated
the row. -/
theorem retry_error (h : retry course cfg id userId s = .error e u) :
    ∃ y, course.Leaves s id y u ∧
      (course.Spares id → (y = s.held id ↔ ¬ course.Updates cfg id userId s)) := by
  have hstart := Course.Leaves.refl course s id
  rcases error_of_bind h with hget | ⟨existing, t₁, hget, h⟩
  · refine ⟨_, preserves_query.of_error hstart hget, fun _ => iff_of_true rfl fun hupdates => ?_⟩
    obtain ⟨⟨hsucceeds, -, a, -, hfind, -⟩, -⟩ := hupdates
    rcases query_error hget with hfails | hnever
    · exact absurd (hsucceeds.symm.trans hfails) nofun
    · rw [hfind] at hnever
      exact hnever a rfl
  obtain ⟨hgetSucceeds, rfl, hexisting⟩ := query_ok hget
  have hfind : (course.others .getAnalysis s).db.analyses.find?
      (fun a => a.id = id ∧ a.userId = userId) = some existing := by
    split at hexisting
    next a ha =>
      cases hexisting
      exact ha
    next => cases hexisting
  have hfound := hstart.others .getAnalysis
  rcases error_of_bind h with hget | ⟨song, t₂, hget', h⟩
  · refine ⟨_, preserves_query.of_error hfound hget, fun _ => iff_of_true rfl fun hupdates => ?_⟩
    obtain ⟨⟨-, hsucceeds, a, song, ha, hsong, -⟩, -⟩ := hupdates
    obtain rfl : existing = a := Option.some.inj (hfind.symm.trans ha)
    rcases query_error hget with hfails | hnever
    · exact absurd (hsucceeds.symm.trans hfails) nofun
    · rw [hsong] at hnever
      exact hnever song rfl
  obtain ⟨hsongSucceeds, rfl, hfoundSong⟩ := query_ok hget'
  have hsong : (course.others .getSong (course.others .getAnalysis s)).db.song existing.songId
      = some song := by
    split at hfoundSong
    next b hb =>
      cases hfoundSong
      exact hb
    next => cases hfoundSong
  have hfound := hfound.others .getSong
  -- the row is not updated while the song is not ready
  have hnot : song.prepStatus ≠ .ready → ¬ course.Updates cfg id userId s := by
    rintro hstatus ⟨⟨-, -, a, song', ha, hsong', hready⟩, -⟩
    obtain rfl : existing = a := Option.some.inj (hfind.symm.trans ha)
    obtain rfl : song = song' := Option.some.inj (hsong.symm.trans hsong')
    exact hstatus hready
  rcases error_of_guard h with ⟨hfailed, -, rfl⟩ | ⟨-, h⟩
  · exact ⟨_, hfound, fun _ => iff_of_true rfl (hnot (by rw [hfailed]; exact nofun))⟩
  by_cases hready : song.prepStatus = .ready
  · have hretried : retryReady course cfg id userId
        (course.others .getSong (course.others .getAnalysis s)) = .error e u := by
      rwa [if_neg (by simp [Song.readyForAnalysis, hready])] at h
    obtain ⟨y, hleft, hsame⟩ := retryReady_error hfound hretried
    refine ⟨y, hleft, fun hspares => (hsame hspares).trans (not_congr ?_)⟩
    have hfinds : course.FindsReady id userId s :=
      ⟨hgetSucceeds, hsongSucceeds, existing, song, hfind, hsong, hready⟩
    exact (and_iff_right hfinds).symm
  · rw [if_pos (by simp [Song.readyForAnalysis, hready])] at h
    rcases error_of_bind h with hretry | ⟨_, _, -, hnever⟩
    · exact ⟨_, (retryRow_error hfound hretry).1, fun _ => iff_of_true rfl (hnot hready)⟩
    · cases hnever

/-! ## The main result -/

/-- `Enqueue` ends before the transcoding, or what it has done is undone. -/
def Course.Reverts (course : Course) (cfg : Settings) (id : AnalysisId) (userId : UserId)
    (songId : SongId) (mode : AnalysisMode) (upload : Upload) (s : Stores) : Prop :=
  ∀ songReady u, enqueueChecks course cfg songId upload s = .ok songReady u →
    course.Undone cfg id userId songId mode u

/-- A failed analysis is failed still, and can be retried. -/
theorem Unchanged.retryable (h : Unchanged course s t) (hspares : course.Spares id) :
    (∃ a ∈ t.db.analyses, a.retryable id userId = true) ↔
      ∃ a ∈ s.db.analyses, a.retryable id userId = true := by
  rw [retryable_iff_mem_rows, retryable_iff_mem_rows, h id hspares]

/-- **A failed admission leaves what nobody else touches as it was** if and only if what the
call has done is undone.

* `Enqueue`, apart from a failing `XADD` of its own: it ends before the transcoding, or its
  effects are undone (`Course.Reverts`).  The id of the analysis is new.
* `Retry`: it ends before it updates the row (`Course.Updates`). -/
theorem admission_unchanged (course : Course) (cfg : Settings) (id : AnalysisId) (userId : UserId)
    (s t : Stores) (e : Error) :
    (∀ (songId : SongId) (mode : AnalysisMode) (upload : Upload),
      enqueue course cfg id userId songId mode upload s = .error e t →
      e ≠ .failed .enqueueIfUnderLimit → s.held id = {} →
      (course.Reverts cfg id userId songId mode upload s → Unchanged course s t) ∧
        (course.Spares id → Unchanged course s t →
          course.Reverts cfg id userId songId mode upload s)) ∧
    (retry course cfg id userId s = .error e t →
      (¬ course.Updates cfg id userId s → Unchanged course s t) ∧
        (course.Spares id → Unchanged course s t → ¬ course.Updates cfg id userId s)) := by
  refine ⟨fun songId mode upload h hadmission hblank => ?_, fun h => ?_⟩
  · have hstart : course.Leaves s id {} s := hblank ▸ Course.Leaves.refl course s id
    rcases error_of_bind h with hchecks | ⟨songReady, u, hchecks, h⟩
    · have hleft := (preserves_enqueueChecks songId upload).of_error hstart hchecks
      rw [← hblank] at hleft
      refine ⟨fun _ => hleft.unchanged, fun _ _ songReady u hok => ?_⟩
      rw [hchecks] at hok
      cases hok
    · have hfound := (preserves_enqueueChecks songId upload).of_ok hstart hchecks
      obtain ⟨x, hleft, hundone⟩ := enqueueTranscoded_error hfound h hadmission
      refine ⟨fun hreverts => ?_, fun hspares hsame songReady' u' hok => ?_⟩
      · have hx := hundone.mpr (hreverts songReady u hchecks)
        exact (hx.trans hblank.symm ▸ hleft).unchanged
      · have hx := (hleft.unchanged_iff hspares).mp hsame
        rw [hchecks] at hok
        cases hok
        exact hundone.mp (hx.trans hblank)
  · obtain ⟨y, hleft, hy⟩ := retry_error h
    refine ⟨fun hupdates => ?_, fun hspares hsame => ?_⟩
    · intro other hother
      rw [hleft other hother]
      split
      next hid =>
        subst hid
        exact (hy hother).mpr hupdates
      next => rfl
    · exact (hy hspares).mp ((hleft.unchanged_iff hspares).mp hsame)

/-- Song 0 is ready, and analysis 5 has failed. -/
def failedOnce : Stores where
  db := (Database.create 5 7 0 .failed .clean 0 { songs := [{ id := 0, prepStatus := .ready }] })

/-- There is room for one entry. -/
def oneEntry : Settings where
  queueMaxLength := 1
  maxUploadBytes := 1
  maxAudioSeconds := 1

/-- Another request is admitted right before this one. -/
def overtaken : Course where
  others op s := if op = .enqueueIfUnderLimit then { s with run := s.run.xadd 3 } else s

theorem overtaken_spares (hid : other ≠ 3) : overtaken.Spares other := by
  intro op s
  unfold overtaken
  dsimp only
  split
  next => exact (held_published s other).trans (if_neg hid)
  next => rfl

/-- The overtaken request leaves nothing of its analysis, and a retry that cannot read the
length of the queue leaves the failed one. -/
theorem admission_unchanged_overtaken :
    (∃ t, enqueue overtaken oneEntry 6 7 0 .clean {} failedOnce = .error .queueFull t ∧
      Unchanged overtaken failedOnce t ∧ overtaken.Spares 6) ∧
    ∃ t, retry { fails := fun op => op = .length } oneEntry 5 7 failedOnce
        = .error (.failed .length) t ∧ Unchanged { fails := fun op => op = .length } failedOnce t := by
  refine ⟨⟨_, rfl, ?_, overtaken_spares (by decide)⟩, ⟨_, rfl, ?_⟩⟩
  · refine (((admission_unchanged overtaken oneEntry 6 7 failedOnce _ .queueFull).1 0 .clean {} rfl
      nofun (by decide +kernel)).1 fun songReady u hok => ?_)
    cases hok
    unfold Course.Undone
    decide +kernel
  · refine ((admission_unchanged _ oneEntry 5 7 failedOnce _ _).2 rfl).1 ?_
    rintro ⟨-, hfails, -⟩
    cases hfails

/-- A row that is queued without an entry cannot be retried. -/
example : ∃ t, retry { fails := fun op => op = .enqueue } oneEntry 5 7 failedOnce
      = .error (.failed .enqueue) t ∧ ∃ u, retry {} oneEntry 5 7 t = .error .analysisNotFailed u :=
  ⟨_, rfl, _, rfl⟩

/-- Neither call leaves everything as it was whenever it fails: an `Enqueue` that cannot record
the stream id leaves a job that runs, and a `Retry` whose `XADD` fails a row that is queued for
ever. -/
theorem not_forall_unchanged :
    (¬ ∀ (course : Course) (cfg : Settings) (id : AnalysisId) (userId : UserId) (songId : SongId)
      (mode : AnalysisMode) (upload : Upload) (s t : Stores) (e : Error), course.Spares id →
      s.held id = {} → enqueue course cfg id userId songId mode upload s = .error e t →
      e ≠ .failed .enqueueIfUnderLimit → Unchanged course s t) ∧
    ¬ ∀ (course : Course) (cfg : Settings) (id : AnalysisId) (userId : UserId) (s t : Stores)
      (e : Error), course.Spares id → retry course cfg id userId s = .error e t →
      Unchanged course s t := by
  refine ⟨fun h => ?_, fun h => ?_⟩
  · have hsame := h { fails := fun op => op = .setQueueStreamId } oneEntry 6 7 0 .clean {} failedOnce
      _ _ (fun _ _ => rfl) (by decide +kernel) rfl nofun 6 fun _ _ => rfl
    exact absurd hsame (by decide +kernel)
  · have hsame := h { fails := fun op => op = .enqueue } oneEntry 5 7 failedOnce _ _
      (fun _ _ => rfl) rfl 5 fun _ _ => rfl
    exact absurd hsame (by decide +kernel)

end Admission

end VocalCoach
