/-
# What a step of the system can do

Inversion lemmas for `step`, used by every invariant: a step is one of the process itself
or the effect of a plan (`step_cases`), the worker writes what `WorkerWrites` lists and the
API what `ApiWrites` lists, and new rows get new ids (`plan_newId`).

`World.Sound` collects what holds of every reachable state whatever the schedule.
-/
import VocalCoach.Moves

namespace VocalCoach

open RedisStream Machine

variable {cfg : Config} {w w' : World} {a : Action} {e : Effect}

/-! ## One step -/

theorem step_cases (h : step cfg w a = some w') :
    lifecycle w a = some w' ∨ ∃ e, plan cfg w a = some e ∧ w' = w.apply e := by
  unfold step at h
  cases hl : lifecycle w a with
  | some w₁ =>
    rw [hl] at h
    exact Or.inl h
  | none =>
    rw [hl] at h
    obtain ⟨e, he, rfl⟩ := Option.map_eq_some_iff.mp h
    exact Or.inr ⟨e, he, rfl⟩

/-- A planned action is no action of the process itself. -/
theorem step_eq_apply (hstep : step cfg w a = some w') (hplan : plan cfg w a = some e) :
    w' = w.apply e := by
  rcases step_cases hstep with hlife | ⟨e', hplan', rfl⟩
  · cases a <;> simp [lifecycle] at hlife <;> cases hplan
  · rw [Option.some.inj (hplan.symm.trans hplan')]

/-- The process starting, stopping or waiting touches no store. -/
structure Untouched (w w' : World) : Prop where
  db : w'.db = w.db
  run : w'.run = w.run
  prep : w'.prep = w.prep
  calls : w'.calls = w.calls
  nextUuid : w'.nextUuid = w.nextUuid
  worker : w'.worker = w.worker ∨ w'.worker = .idle ∨ w'.worker = .down

theorem lifecycle_untouched (h : lifecycle w a = some w') : Untouched w w' := by
  cases a <;> simp only [lifecycle, reduceCtorEq] at h
  case sleep => cases h; exact ⟨rfl, rfl, rfl, rfl, rfl, Or.inl rfl⟩
  case start =>
    split_ifs at h
    cases h
    exact ⟨rfl, rfl, rfl, rfl, rfl, Or.inr (Or.inl rfl)⟩
  case crash =>
    split_ifs at h
    cases h
    exact ⟨rfl, rfl, rfl, rfl, rfl, Or.inr (Or.inr rfl)⟩
  case enterLoop =>
    split_ifs at h
    cases h
    exact ⟨rfl, rfl, rfl, rfl, rfl, Or.inl rfl⟩

/-! ## Commands on a stream -/

/-- A command keeps the stream ordered. -/
theorem Command.run_ordered {F : Type*} {s : Stream F} (hs : s.Ordered) (now : Time)
    (c : Command F) : (c.run now s).Ordered := by
  cases c with
  | xadd fields => exact hs.xadd fields
  | xdel id => exact hs.xdel id
  | xack id => exact hs.xack id
  | xreadgroup consumer count => exact hs.xreadgroup consumer now count
  | xclaim consumer minIdle id => exact hs.xclaim consumer minIdle now id

/-- The last id never goes back. -/
theorem Command.lastId_le_run {F : Type*} (s : Stream F) (now : Time) (c : Command F) :
    s.lastId ≤ (c.run now s).lastId := by
  cases c with
  | xadd => exact Nat.le_succ _
  | xclaim consumer minIdle id => exact (s.xclaim_entries consumer minIdle now id).2.1.ge
  | _ => exact Nat.le_refl _

/-- A message after a command is one of before, or has a new id. -/
theorem Command.mem_run {F : Type*} {s : Stream F} {now : Time} {c : Command F} {x : Entry F}
    (hx : x ∈ (c.run now s).entries) : x ∈ s.entries ∨ x.id = s.lastId + 1 := by
  cases c with
  | xadd fields =>
    rcases List.mem_append.mp hx with hx | hx
    · exact Or.inl hx
    · exact Or.inr (by rw [List.mem_singleton.mp hx])
  | xdel => exact Or.inl (List.mem_of_mem_filter hx)
  | xclaim consumer minIdle id =>
    rw [Command.run, (s.xclaim_entries consumer minIdle now id).1] at hx
    exact Or.inl hx
  | _ => exact Or.inl hx

/-! ## The statements of the worker -/

/-- The statements of the worker, each with where it issues it. -/
inductive WorkerWrites : Worker → Statement → Prop
  | markProcessing {entry id active remaining first index total}
      (h : remaining.flatten.head? = some first) :
      WorkerWrites (.analysisStart entry id active remaining) (.markProcessing id first index total)
  | saveStageProgress {entry id active stage saving remaining next index total} :
      WorkerWrites (.analysisRun entry id active (stage :: saving) remaining)
        (.saveStageProgress id stage next index total)
  | markFailed {entry id errorCode givingUp} :
      WorkerWrites (.analysisFail entry id errorCode givingUp) (.markFailed id errorCode)
  | markDone {entry id} : WorkerWrites (.analysisDone entry id) (.markDone id)
  | markPrepProcessing {entry songId remaining first} (h : remaining.flatten.head? = some first) :
      WorkerWrites (.prepStart entry songId remaining) (.markPrepProcessing songId first)
  | savePrepStageProgress {entry songId stage saving remaining next} :
      WorkerWrites (.prepRun entry songId (stage :: saving) remaining)
        (.savePrepStageProgress songId stage next)
  | markPrepFailed {entry songId errorCode givingUp} :
      WorkerWrites (.prepFail entry songId errorCode givingUp) (.markPrepFailed songId errorCode)
  | failWaiting {entry songId errorCode givingUp} :
      WorkerWrites (.prepFailWaiting entry songId errorCode givingUp)
        (.failWaitingForReference songId errorCode)
  | markPrepReady {entry songId} : WorkerWrites (.prepReady entry songId) (.markPrepReady songId)
  | wake {entry songId} : WorkerWrites (.prepWake entry songId) (.wakeWaitingForReference songId)

theorem WorkerMove.writes {worker : Worker} {s : Statement} (h : WorkerMove cfg w a worker e)
    (hs : e.statement = some s) : WorkerWrites worker s := by
  cases h <;> cases hs
  case markProcessing.refl h => exact .markProcessing h
  case markPrepProcessing.refl h => exact .markPrepProcessing h
  all_goals constructor

/-- **What the worker writes**, and where it stands when it does. -/
theorem plan_workerWrites (h : plan cfg w a = some e) (ha : a.ofApi = false) {s : Statement}
    (hs : e.statement = some s) : WorkerWrites w.worker s :=
  (plan_move h ha).writes hs

/-! ## The statements of the API -/

/-- The statements of the API, each with the step that issues it. -/
inductive ApiWrites (w : World) : Action → Statement → Prop
  | cancel {id userId r} (hr : w.db.analysis id = some r) (hguard : r.cancelable id userId) :
      ApiWrites w (.request (.cancel userId id)) (.cancel id userId)
  | createSong : ApiWrites w (.request .addSong) (.createSong w.nextUuid)
  | createQueued {userId songId mode} :
      ApiWrites w (.advance (.enqueueCreate userId songId mode true))
        (.create w.nextUuid userId songId .queued mode)
  | createWaiting {userId songId mode} :
      ApiWrites w (.advance (.enqueueCreate userId songId mode false))
        (.create w.nextUuid userId songId .waitingForReference mode)
  | delete {id} : ApiWrites w (.advance (.enqueueRollBack id)) (.delete id)
  | retry {userId id} : ApiWrites w (.advance (.retryUpdate userId id)) (.retry id userId)
  | retryWaiting {userId id} :
      ApiWrites w (.advance (.retryWaiting userId id)) (.retryToWaitingForReference id userId)
  | setStreamId {id entry} :
      ApiWrites w (.advance (.setStreamId id entry)) (.setQueueStreamId id entry)
  | recalculate {id} : ApiWrites w (.advance (.recalculate id)) .recalculatePositions
  | deleteSong {songId} : ApiWrites w (.advance (.songRollBack songId)) (.deleteSong songId)
  | retryPrep {songId} : ApiWrites w (.advance (.prepRetryUpdate songId)) (.retryPrep songId)

/-- **What the API writes**, and in which step. -/
theorem plan_apiWrites (h : plan cfg w a = some e) (ha : a.ofApi) {s : Statement}
    (hs : e.statement = some s) : ApiWrites w a s := by
  cases plan_apiMove h ha with
  | request hmove =>
    cases hmove <;> cases hs
    case cancelStored.refl hr hguard _ => exact .cancel hr hguard
    case cancelUnstored.refl hr hguard _ => exact .cancel hr hguard
    case addSong.refl => exact .createSong
  | advance _ hmove => cases hmove <;> cases hs <;> constructor
  | abort => cases hs

/-! ## Whose statement it is -/

/-- The statements that only the worker issues; the API issues the others. -/
def Statement.ofWorker : Statement → Bool
  | .markProcessing .. | .saveStageProgress .. | .markDone .. | .markFailed ..
  | .wakeWaitingForReference .. | .failWaitingForReference .. | .markPrepProcessing ..
  | .savePrepStageProgress .. | .markPrepReady .. | .markPrepFailed .. => true
  | _ => false

theorem WorkerWrites.ofWorker {worker : Worker} {s : Statement} (h : WorkerWrites worker s) :
    s.ofWorker = true := by
  cases h <;> rfl

theorem ApiWrites.ofWorker {s : Statement} (h : ApiWrites w a s) : s.ofWorker = false := by
  cases h <;> rfl

/-- **The statement tells who takes the step.** -/
theorem plan_ofApi (h : plan cfg w a = some e) {s : Statement} (hs : e.statement = some s) :
    a.ofApi = !s.ofWorker := by
  by_cases ha : a.ofApi
  · rw [ha, (plan_apiWrites h ha hs).ofWorker]
    rfl
  · have ha : a.ofApi = false := by simpa using ha
    rw [ha, (plan_workerWrites h ha hs).ofWorker]
    rfl

/-- A statement of the API, and the step that issues it. -/
theorem plan_apiStatement (h : plan cfg w a = some e) {s : Statement} (hs : e.statement = some s)
    (hapi : s.ofWorker = false) : ApiWrites w a s :=
  plan_apiWrites h (by rw [plan_ofApi h hs, hapi]; rfl) hs

/-- **New rows get new ids.** -/
theorem plan_newId (h : plan cfg w a = some e) {s : Statement} (hs : e.statement = some s)
    {id : AnalysisId} (hid : s.newId = some id) : id = w.nextUuid ∧ e.newUuids = 1 := by
  cases s <;> cases hid
  have ha : a.ofApi := by
    rw [plan_ofApi h hs]
    rfl
  cases plan_apiMove h ha with
  | request hmove => cases hmove <;> cases hs
  | advance _ hmove => cases hmove <;> cases hs <;> exact ⟨rfl, rfl⟩
  | abort => cases hs

/-- A row is inserted as queued or as waiting. -/
theorem plan_inserted_status (h : plan cfg w a = some e) {s : Statement}
    (hs : e.statement = some s) {now : Time} {db : Database} {r : Analysis}
    (hr : r ∈ s.inserted now db) : r.status = .queued ∨ r.status = .waitingForReference := by
  cases s <;> simp only [Statement.inserted, List.mem_singleton, List.not_mem_nil] at hr
  cases plan_apiStatement h hs rfl
  · exact Or.inl (by rw [hr])
  · exact Or.inr (by rw [hr])

/-- Songs are created as they are added. -/
theorem plan_creates (h : plan cfg w a = some e) {s : Statement} (hs : e.statement = some s)
    {r : Song} (hr : r ∈ s.insertedSongs) : a = .request .addSong := by
  cases s <;> simp only [Statement.insertedSongs, List.not_mem_nil] at hr
  cases plan_apiStatement h hs rfl
  rfl

/-- Songs are deleted by the request that undoes their creation. -/
theorem plan_deletes (h : plan cfg w a = some e) {songId : SongId}
    (hs : e.statement = some (.deleteSong songId)) : a = .advance (.songRollBack songId) := by
  cases plan_apiStatement h hs rfl
  rfl

/-- A new song gets the next id too. -/
theorem plan_insertedSongs (h : plan cfg w a = some e) {s : Statement} (hs : e.statement = some s)
    {r : Song} (hr : r ∈ s.insertedSongs) :
    r = { id := w.nextUuid } ∧ e.newUuids = 1 := by
  obtain rfl := plan_creates h hs hr
  cases h
  cases hs
  exact ⟨List.mem_singleton.mp hr, rfl⟩

/-! ## The analysis in the worker's hands -/

/-- The analysis whose outcome the worker may still write. -/
def Worker.analysis : Worker → Option AnalysisId
  | .analysisRead _ id | .analysisContext _ id .. | .analysisStart _ id .. | .analysisRun _ id ..
  | .analysisFail _ id .. | .analysisDone _ id => some id
  | _ => none

/-- The analysis whose entry an action hands to the handler or gives up on. -/
def World.handedOver (w : World) : Action → Option AnalysisId
  | .deliver => (w.run.newEntries 1).head?.map Entry.fields
  | .reclaimRun entry => w.run.xrange entry
  | _ => none

/-- The status moves of the worker concern the analysis in its hands, or a waiting row. -/
theorem WorkerWrites.moves {worker : Worker} {s : Statement} {r : Analysis}
    {status : AnalysisStatus} (h : WorkerWrites worker s) (hm : Moves s r status) :
    worker.analysis = some r.id ∨ r.status = .waitingForReference := by
  cases h <;> cases hm
  case markProcessing.markProcessing h => exact Or.inl (h ▸ rfl)
  case markFailed.markFailed h => exact Or.inl (h ▸ rfl)
  case markDone.markDone h => exact Or.inl (h ▸ rfl)
  case failWaiting.failWaiting h => exact Or.inr (Analysis.waitingFor_iff.mp h).2
  case wake.wake h => exact Or.inr (Analysis.waitingFor_iff.mp h).2

/-- **How an analysis gets into the worker's hands**: it is there already, or its entry is
handed over, which writes nothing. -/
theorem plan_analysis (h : plan cfg w a = some e) {id : AnalysisId}
    (hid : e.worker.analysis = some id) :
    w.worker.analysis = some id ∨ (e.statement = none ∧ w.handedOver a = some id) := by
  by_cases ha : a.ofApi
  · rw [plan_worker h ha] at hid
    exact Or.inl hid
  have hmove := plan_move h (by simpa using ha)
  generalize w.worker = worker at hmove
  cases hmove
  case deliver x hx =>
    cases hid
    exact Or.inr ⟨rfl, by simp only [World.handedOver, hx, Option.map_some]⟩
  case reclaimRun hrange =>
    cases hid
    exact Or.inr ⟨rfl, hrange⟩
  case giveUpRun hrange =>
    cases hid
    exact Or.inr ⟨rfl, hrange⟩
  all_goals first
    | exact Or.inl hid
    | cases hid

/-! ## What holds of every reachable state -/

/-- The tables are well formed and ids yet to be drawn are not in use. -/
structure World.Sound (w : World) : Prop where
  db : w.db.WellFormed
  fresh : ∀ r ∈ w.db.analyses, r.id < w.nextUuid
  freshSongs : ∀ r ∈ w.db.songs, r.id < w.nextUuid
  distinctSongs : w.db.songs.Pairwise fun r t => r.id ≠ t.id

theorem World.Sound.empty : World.Sound {} :=
  ⟨Database.WellFormed.empty, by simp, by simp, List.Pairwise.nil⟩

/-- The song of an id is unique. -/
theorem World.Sound.eq_of_songId (h : w.Sound) {r t : Song} (hr : r ∈ w.db.songs)
    (ht : t ∈ w.db.songs) (hid : r.id = t.id) : r = t := by
  have hnodup : (w.db.songs.map Song.id).Nodup := List.pairwise_map.mpr h.distinctSongs
  exact List.inj_on_of_nodup_map hnodup hr ht hid

/-- A song after a step is a song before it, as the step's statement left it, or new. -/
theorem step_song (hstep : step cfg w a = some w') {r : Song} (hr : r ∈ w'.db.songs) :
    r ∈ w.db.songs ∨ ∃ e s, plan cfg w a = some e ∧ e.statement = some s ∧
      ((∃ b ∈ w.db.songs, s.onSong w.now b = some r) ∨ r ∈ s.insertedSongs) := by
  rcases step_cases hstep with hlife | ⟨e, hplan, rfl⟩
  · rw [(lifecycle_untouched hlife).db] at hr
    exact Or.inl hr
  · cases hs : e.statement with
    | none =>
      simp only [World.apply, hs, Option.elim_none] at hr
      exact Or.inl hr
    | some s =>
      simp only [World.apply, hs, Option.elim_some] at hr
      exact Or.inr ⟨e, s, hplan, hs, mem_run_songs.mp hr⟩

theorem step_nextUuid (hstep : step cfg w a = some w') : w.nextUuid ≤ w'.nextUuid := by
  rcases step_cases hstep with hlife | ⟨e, -, rfl⟩
  · exact (lifecycle_untouched hlife).nextUuid.ge
  · exact Nat.le_add_right _ _

/-- A row after a step is a row before it, as the step's statement left it, or new. -/
theorem step_row (hstep : step cfg w a = some w') {r : Analysis} (hr : r ∈ w'.db.analyses) :
    r ∈ w.db.analyses ∨ ∃ e s, plan cfg w a = some e ∧ e.statement = some s ∧
      ((∃ b ∈ w.db.analyses, s.onRow w.now w.db b = some r) ∨ r ∈ s.inserted w.now w.db) := by
  rcases step_cases hstep with hlife | ⟨e, hplan, rfl⟩
  · rw [(lifecycle_untouched hlife).db] at hr
    exact Or.inl hr
  · cases hs : e.statement with
    | none =>
      simp only [World.apply, hs, Option.elim_none] at hr
      exact Or.inl hr
    | some s =>
      simp only [World.apply, hs, Option.elim_some] at hr
      exact Or.inr ⟨e, s, hplan, hs, mem_run.mp hr⟩


/-- Every row of a step's outcome has an id already drawn. -/
theorem World.Sound.step_fresh (h : w.Sound) (hstep : step cfg w a = some w') :
    (∀ r ∈ w'.db.analyses, r.id < w'.nextUuid) ∧ ∀ r ∈ w'.db.songs, r.id < w'.nextUuid := by
  have hnext := step_nextUuid hstep
  constructor
  · intro r hr
    rcases step_row hstep hr with hr | ⟨e, s, hplan, hs, ⟨b, hb, hbr⟩ | hins⟩
    · exact (h.fresh r hr).trans_le hnext
    · rw [onRow_id hbr]
      exact (h.fresh b hb).trans_le hnext
    · obtain ⟨heq, hnew⟩ := plan_newId hplan hs (inserted_id hins).1
      rw [heq, step_eq_apply hstep hplan, World.apply, hnew]
      exact Nat.lt_succ_self _
  · intro r hr
    rcases step_song hstep hr with hr | ⟨e, s, hplan, hs, ⟨b, hb, hbr⟩ | hins⟩
    · exact (h.freshSongs r hr).trans_le hnext
    · rw [onSong_id hbr]
      exact (h.freshSongs b hb).trans_le hnext
    · obtain ⟨rfl, hnew⟩ := plan_insertedSongs hplan hs hins
      rw [step_eq_apply hstep hplan, World.apply, hnew]
      exact Nat.lt_succ_self _

/-- **Every step keeps a sound state sound.** -/
theorem World.Sound.step (h : w.Sound) (hstep : step cfg w a = some w') : w'.Sound := by
  obtain ⟨hfresh, hfreshSongs⟩ := h.step_fresh hstep
  rcases step_cases hstep with hlife | ⟨e, hplan, rfl⟩
  · have hdb := (lifecycle_untouched hlife).db
    exact ⟨hdb ▸ h.db, hfresh, hfreshSongs, hdb ▸ h.distinctSongs⟩
  · cases hs : e.statement with
    | none =>
      have hdb : (w.apply e).db = w.db := by simp only [World.apply, hs, Option.elim_none]
      exact ⟨hdb ▸ h.db, hfresh, hfreshSongs, hdb ▸ h.distinctSongs⟩
    | some s =>
      have hdb : (w.apply e).db = s.run w.now w.db := by
        simp only [World.apply, hs, Option.elim_some]
      refine ⟨?_, hfresh, hfreshSongs, ?_⟩
      · rw [hdb]
        refine h.db.run s fun r hr hid => ?_
        obtain ⟨heq, -⟩ := plan_newId hplan hs hid
        exact absurd (h.fresh r hr) (heq ▸ Nat.lt_irrefl _)
      · rw [hdb]
        refine distinct_run_songs s h.distinctSongs fun t ht r hr heq => ?_
        obtain ⟨rfl, -⟩ := plan_insertedSongs hplan hs ht
        exact absurd (h.freshSongs r hr) (heq ▸ Nat.lt_irrefl _)

end VocalCoach
