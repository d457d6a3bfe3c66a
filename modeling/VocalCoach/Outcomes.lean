/-
# Terminal outcomes

Neither `mark_processing`, `mark_done`, `mark_failed` nor their counterparts for a song
look at the status they overwrite, and an entry whose outcome is recorded is delivered
again when its acknowledgement is lost.  What protects an outcome is resumption: a `done`
analysis has every stage saved (`OutcomesKept.done`), so handling it again runs nothing
and ends in `done`.

Both tables are instances of resumable jobs (`analysisJobs`, `songJobs`); the theorems
about one step come from there.  `outcomes_kept` states the condition under which `done`,
`failed` and `ready` are left only by a retry of the user.
-/
import VocalCoach.Steps

namespace VocalCoach

open RedisStream Machine Resumption

variable {cfg : Config} {w w' : World} {a : Action} {e : Effect}

/-! ## Handing over and giving up -/

/-- A pending entry that was delivered too often. -/
def exhausted {F : Type*} (s : Stream F) (minIdle now : ℕ) (entry : EntryId) : Bool :=
  (s.claimable minIdle now entry).any fun d => maxClaimAttempts < d.timesDelivered

/-- The analysis an action hands to `AnalysisJobHandler.handle`. -/
def World.handles (w : World) : Action → Option AnalysisId
  | .deliver => (w.run.newEntries 1).head?.map Entry.fields
  | .reclaimRun entry =>
      if exhausted w.run pendingClaimMinIdle w.now entry then none else w.run.xrange entry
  | _ => none

/-- The analysis an action gives up on. -/
def World.givesUp (w : World) : Action → Option AnalysisId
  | .reclaimRun entry =>
      if exhausted w.run pendingClaimMinIdle w.now entry then w.run.xrange entry else none
  | _ => none

/-- The song an action hands to `SongPrepJobHandler.handle`. -/
def World.handlesPrep (w : World) : Action → Option SongId
  | .pickPrep entry => w.prep.xrange entry
  | .reclaimPrep entry =>
      if exhausted w.prep songsPrepPendingClaimMinIdle w.now entry then none
      else w.prep.xrange entry
  | _ => none

/-- The song an action gives up on. -/
def World.givesUpPrep (w : World) : Action → Option SongId
  | .reclaimPrep entry =>
      if exhausted w.prep songsPrepPendingClaimMinIdle w.now entry then w.prep.xrange entry
      else none
  | _ => none

/-! ## Analyses as resumable jobs -/

def analysisJobs (cfg : Config) : Jobs Analysis String where
  id := Analysis.id
  entries r := cfg.analysisEntries r.mode
  saved := Analysis.stages
  finished r := r.status = .done
  failed r := r.status = .failed

/-- What the worker is about to do with an analysis. -/
def Worker.analysisView : Worker → View String
  | .analysisRead _ id => .read id
  | .analysisContext _ id _ _ remaining | .analysisStart _ id _ remaining => .todo id remaining
  | .analysisRun _ id _ [] remaining => .todo id remaining
  | .analysisRun _ id _ saving remaining => .todo id (saving :: remaining)
  | .analysisDone _ id => .todo id []
  | .analysisFail _ id _ _ => .failing id
  | _ => .none

/-- A saved stage is in the row. -/
theorem stage_saved {id : AnalysisId} {stage : String} {next : Option String} {index : Option ℕ}
    {total : ℕ} (hs : e.statement = some (.saveStageProgress id stage next index total)) :
    ∀ r ∈ (w.apply e).db.analyses, r.id = id → stage ∈ r.stages := by
  intro r hr hid
  simp only [World.apply, hs, Option.elim_some] at hr
  rcases mem_run.mp hr with ⟨b, -, hbr⟩ | hins
  · have hbid := (onRow_id hbr).symm.trans hid
    simp only [Statement.onRow, hbid, if_true, Option.some.injEq] at hbr
    rw [← hbr]
    by_cases hin : stage ∈ b.stages <;> simp [Analysis.withProgress, hin]
  · cases hins

/-- **What a step does with the analysis in the worker's hands.** -/
theorem plan_analysisTurns (h : plan cfg w a = some e) :
    (analysisJobs cfg).Turns (w.handles a) (w.givesUp a) w.db.analyses
      (w.apply e).db.analyses w.worker.analysisView e.worker.analysisView := by
  by_cases ha : a.ofApi
  · rw [plan_worker h ha]
    exact .stay
  have hmove := plan_move h (by simpa using ha)
  generalize w.worker = worker at hmove
  cases hmove
  case deliver x hx => exact .handOver rfl (by simp [World.handles, hx])
  case reclaimRun hd hmax hrange =>
    exact .handOver rfl (by simp [World.handles, exhausted, hd, hmax, hrange])
  case giveUpRun hd hmax hrange =>
    exact .giveUp rfl (by simp [World.givesUp, exhausted, hd, hmax, hrange])
  case rowRead entry id r hr =>
    have hid : r.id = id := by simpa using List.find?_some hr
    exact .plan rfl (List.mem_of_find?_eq_some hr) hid
  case saveStageProgress saving remaining _ =>
    -- the stage just saved is in the row, the others are still to be saved
    cases saving <;>
      refine .advance fun s hs => (List.mem_cons.mp hs).elim (fun heq => ?_) Or.inl
    all_goals
      subst heq
      exact Or.inr (stage_saved rfl)
  case entryRan members remaining =>
    cases members with
    | nil => exact .advance fun s hs => Or.inl hs
    | cons => exact .stay
  case entryFailed => exact .fail rfl
  case referenceRead | nothingLeft | markProcessing | analysisRan => exact .stay
  all_goals exact .drop

theorem step_analysisTurns (h : step cfg w a = some w') :
    (analysisJobs cfg).Turns (w.handles a) (w.givesUp a) w.db.analyses w'.db.analyses
      w.worker.analysisView w'.worker.analysisView := by
  rcases step_cases h with hlife | ⟨e, hplan, rfl⟩
  · rcases (lifecycle_untouched hlife).worker with hw | hw | hw <;> rw [hw]
    · exact .stay
    · exact .drop
    · exact .drop
  · exact plan_analysisTurns hplan

/-- The analysis a step of the API retries. -/
def Action.retries : Action → Option AnalysisId
  | .advance (.retryUpdate _ id) | .advance (.retryWaiting _ id) => some id
  | _ => none

/-- A failed row is retried by `Retry` only. -/
theorem ApiWrites.retries {s : Statement} (h : ApiWrites w a s) {id : AnalysisId}
    {userId : UserId} (hs : s = .retry id userId ∨ s = .retryToWaitingForReference id userId) :
    a.retries = some id := by
  rcases hs with rfl | rfl <;> cases h <;> rfl

/-- **How a step changes the status of an analysis.** -/
theorem plan_lands (h : plan cfg w a = some e) {s : Statement} (hs : e.statement = some s)
    {b r : Analysis} (hbr : s.onRow w.now w.db b = some r) :
    (analysisJobs cfg).Lands w.worker.analysisView a.retries b r := by
  rcases onRow_status hbr with hsame | hmove
  · exact .same (by simp [analysisJobs, hsame]) (by simp [analysisJobs, hsame])
  have hid := onRow_id hbr
  -- a row that has not ended, and had not or is retried
  have hopen : r.status ≠ .done → r.status ≠ .failed →
      (b.status ≠ .done ∧ b.status ≠ .failed) ∨ (b.status ≠ .done ∧ a.retries = some r.id) →
      (analysisJobs cfg).Lands w.worker.analysisView a.retries b r := by
    rintro hr hr' (⟨hb, hb'⟩ | ⟨hb, hretried⟩)
    · exact .awaiting hb (Or.inl hb') hr hr'
    · exact .awaiting hb (Or.inr hretried) hr hr'
  by_cases hapi : a.ofApi
  · have hwrites := plan_apiWrites h hapi hs
    generalize hstatus : r.status = status at hmove
    cases hmove with
    | cancel hguard =>
      have hb := (Analysis.cancelable_iff.mp hguard).2.2
      refine hopen (by simp [hstatus]) (by simp [hstatus]) (Or.inl ⟨?_, ?_⟩) <;>
        rcases hb with hb | hb <;> simp [hb]
    | retry hguard =>
      obtain ⟨hbid, -, hb⟩ := Analysis.retryable_iff.mp hguard
      refine hopen (by simp [hstatus]) (by simp [hstatus]) (Or.inr ⟨by simp [hb], ?_⟩)
      rw [hid, hbid]
      exact hwrites.retries (Or.inl rfl)
    | retryToWaitingForReference hguard =>
      obtain ⟨hbid, -, hb⟩ := Analysis.retryable_iff.mp hguard
      refine hopen (by simp [hstatus]) (by simp [hstatus]) (Or.inr ⟨by simp [hb], ?_⟩)
      rw [hid, hbid]
      exact hwrites.retries (Or.inr rfl)
    | _ => cases hwrites
  · have hwrites := plan_workerWrites h (by simpa using hapi) hs
    generalize hworker : w.worker = worker at hwrites ⊢
    generalize hstatus : r.status = status at hmove
    -- each place of the worker writes one kind of move
    cases hwrites <;> cases hmove
    case markProcessing.markProcessing remaining _ _ _ hfirst hb =>
      refine .started remaining ?_ ?_ (by simp [analysisJobs, hstatus])
        (by simp [analysisJobs, hstatus])
      · show View.todo _ _ = View.todo r.id _
        rw [hid, hb]
      · rintro rfl
        cases hfirst
    case markFailed.markFailed hb =>
      refine .failed (Or.inl ?_) (by simp [analysisJobs, hstatus]) fun _ => hstatus
      show View.failing _ = View.failing r.id
      rw [hid, hb]
    case markDone.markDone hb =>
      refine .finished ?_ hstatus (by simp [analysisJobs, hstatus])
      show View.todo _ _ = View.todo r.id _
      rw [hid, hb]
    case failWaiting.failWaiting hguard =>
      have hb := (Analysis.waitingFor_iff.mp hguard).2
      exact .failed (Or.inr ⟨rfl, by simp [analysisJobs, hb]⟩) (by simp [analysisJobs, hstatus])
        fun _ => hstatus
    case wake.wake hguard =>
      have hb := (Analysis.waitingFor_iff.mp hguard).2
      exact .awaiting (by simp [analysisJobs, hb]) (Or.inl (by simp [analysisJobs, hb]))
        (by simp [analysisJobs, hstatus]) (by simp [analysisJobs, hstatus])

/-- **What a step does to the analyses.** -/
theorem step_analysesMoved (h : step cfg w a = some w') :
    (analysisJobs cfg).Moved w.db.analyses w'.db.analyses w.nextUuid w.worker.analysisView
      a.retries := by
  intro r hr
  rcases step_row h hr with hr | ⟨e, s, hplan, hs, ⟨b, hb, hbr⟩ | hins⟩
  · exact Or.inl hr
  · obtain ⟨hid, -, -, hmode⟩ := onRow_identity hbr
    refine Or.inr (Or.inl ⟨b, hb, hid, ?_, onRow_stages hbr, plan_lands hplan hs hbr⟩)
    show cfg.analysisEntries r.mode = cfg.analysisEntries b.mode
    rw [hmode]
  · refine Or.inr (Or.inr ⟨(plan_newId hplan hs (inserted_id hins).1).1, ?_⟩)
    rcases plan_inserted_status hplan hs hins with h | h <;> simp [analysisJobs, h]

/-! ## Songs as resumable jobs -/

/-- A failed song may be prepared again without a retry, so no song counts as failed. -/
def songJobs (cfg : Config) : Jobs Song String where
  id := Song.id
  entries _ := cfg.prepEntries
  saved := Song.prepStages
  finished r := r.prepStatus = .ready
  failed _ := False

/-- What the worker is about to do with a song. -/
def Worker.songView : Worker → View String
  | .prepRead _ songId => .read songId
  | .prepStart _ songId remaining => .todo songId remaining
  | .prepRun _ songId [] remaining => .todo songId remaining
  | .prepRun _ songId saving remaining => .todo songId (saving :: remaining)
  | .prepReady _ songId => .todo songId []
  | .prepFail _ songId _ _ => .failing songId
  | _ => .none

/-- A saved stage is in the row. -/
theorem prepStage_saved {songId : SongId} {stage : String} {next : Option String}
    (hs : e.statement = some (.savePrepStageProgress songId stage next)) :
    ∀ r ∈ (w.apply e).db.songs, r.id = songId → stage ∈ r.prepStages := by
  intro r hr hid
  simp only [World.apply, hs, Option.elim_some] at hr
  rcases mem_run_songs.mp hr with ⟨b, -, hbr⟩ | hins
  · have hbid := (onSong_id hbr).symm.trans hid
    simp only [Statement.onSong, hbid, if_true, Option.some.injEq] at hbr
    rw [← hbr]
    by_cases hin : stage ∈ b.prepStages <;> simp [Song.withProgress, hin]
  · cases hins

/-- **What a step does with the song in the worker's hands.** -/
theorem plan_songTurns (h : plan cfg w a = some e) :
    (songJobs cfg).Turns (w.handlesPrep a) (w.givesUpPrep a) w.db.songs (w.apply e).db.songs
      w.worker.songView e.worker.songView := by
  by_cases ha : a.ofApi
  · rw [plan_worker h ha]
    exact .stay
  have hmove := plan_move h (by simpa using ha)
  generalize w.worker = worker at hmove
  cases hmove
  case pickPrep hrange => exact .handOver rfl hrange
  case reclaimPrep hd hmax hrange =>
    exact .handOver rfl (by simp [World.handlesPrep, exhausted, hd, hmax, hrange])
  case giveUpPrep hd hmax hrange =>
    exact .giveUp rfl (by simp [World.givesUpPrep, exhausted, hd, hmax, hrange])
  case songRead entry songId song hsong =>
    have hid : song.id = songId := by simpa using List.find?_some hsong
    exact .plan rfl (List.mem_of_find?_eq_some hsong) hid
  case savePrepStageProgress saving remaining _ =>
    cases saving <;>
      refine .advance fun s hs => (List.mem_cons.mp hs).elim (fun heq => ?_) Or.inl
    all_goals
      subst heq
      exact Or.inr (prepStage_saved rfl)
  case prepEntryRan members remaining =>
    cases members with
    | nil => exact .advance fun s hs => Or.inl hs
    | cons => exact .stay
  case prepEntryFailed => exact .fail rfl
  case nothingLeftPrep | markPrepProcessing | prepRan => exact .stay
  all_goals exact .drop

theorem step_songTurns (h : step cfg w a = some w') :
    (songJobs cfg).Turns (w.handlesPrep a) (w.givesUpPrep a) w.db.songs w'.db.songs
      w.worker.songView w'.worker.songView := by
  rcases step_cases h with hlife | ⟨e, hplan, rfl⟩
  · rcases (lifecycle_untouched hlife).worker with hw | hw | hw <;> rw [hw]
    · exact .stay
    · exact .drop
    · exact .drop
  · exact plan_songTurns hplan

/-- The preparation status of a song is the worker's, but for `RetryPrep` of a failed one. -/
theorem plan_songWrites (h : plan cfg w a = some e) {s : Statement} (hs : e.statement = some s)
    {b : Song} {status : SongPrepStatus} (hmove : SongMoves s b status) :
    (b.prepStatus = .failed ∧ status = .pending) ∨ WorkerWrites w.worker s := by
  cases hmove with
  | retryPrep hguard => exact Or.inl ⟨hguard.2, rfl⟩
  | _ => exact Or.inr (plan_workerWrites h (by rw [plan_ofApi h hs]; rfl) hs)

/-- **How a step changes the status of a song.** -/
theorem plan_songLands (h : plan cfg w a = some e) {s : Statement} (hs : e.statement = some s)
    {b r : Song} (hbr : s.onSong w.now b = some r) :
    (songJobs cfg).Lands w.worker.songView none b r := by
  rcases onSong_status hbr with hsame | hmove
  · exact .same (by simp [songJobs, hsame]) Iff.rfl
  have hid := onSong_id hbr
  generalize hstatus : r.prepStatus = status at hmove
  rcases plan_songWrites h hs hmove with ⟨hb, rfl⟩ | hwrites
  · exact .awaiting (by simp [songJobs, hb]) (Or.inl not_false) (by simp [songJobs, hstatus])
      not_false
  · generalize w.worker = worker at hwrites ⊢
    cases hwrites <;> cases hmove
    case markPrepProcessing.markPrepProcessing remaining _ hfirst hb =>
      refine .started remaining ?_ ?_ (by simp [songJobs, hstatus]) not_false
      · show View.todo _ _ = View.todo r.id _
        rw [hid, hb]
      · rintro rfl
        cases hfirst
    case markPrepFailed.markPrepFailed hb =>
      refine .failed (Or.inl ?_) (by simp [songJobs, hstatus]) False.elim
      show View.failing _ = View.failing r.id
      rw [hid, hb]
    case markPrepReady.markPrepReady hb =>
      refine .finished ?_ hstatus not_false
      show View.todo _ _ = View.todo r.id _
      rw [hid, hb]

/-- **What a step does to the songs.** -/
theorem step_songsMoved (h : step cfg w a = some w') :
    (songJobs cfg).Moved w.db.songs w'.db.songs w.nextUuid w.worker.songView none := by
  intro r hr
  rcases step_song h hr with hr | ⟨e, s, hplan, hs, ⟨b, hb, hbr⟩ | hins⟩
  · exact Or.inl hr
  · exact Or.inr (Or.inl ⟨b, hb, onSong_id hbr, rfl, onSong_stages hbr,
      plan_songLands hplan hs hbr⟩)
  · obtain ⟨rfl, -⟩ := plan_insertedSongs hplan hs hins
    exact Or.inr (Or.inr ⟨rfl, by simp [songJobs], not_false⟩)

/-! ## The two job kinds together -/

/-- Both tables keep the invariant of resumable jobs. -/
structure OutcomesKept (cfg : Config) (w : World) : Prop where
  sound : w.Sound
  analyses : (analysisJobs cfg).Kept w.db.analyses w.nextUuid w.worker.analysisView
  songs : (songJobs cfg).Kept w.db.songs w.nextUuid w.worker.songView

theorem OutcomesKept.empty (cfg : Config) : OutcomesKept cfg {} :=
  ⟨World.Sound.empty, ⟨by simp, trivial⟩, ⟨by simp, trivial⟩⟩

/-- No failed analysis is handed to its handler, and no finished job is given up on. -/
def KeepsOutcomes (w : World) (a : Action) : Prop :=
  (∀ id ∈ w.handles a, ∀ r ∈ w.db.analyses, r.id = id → r.status ≠ .failed) ∧
    (∀ id ∈ w.givesUp a, ∀ r ∈ w.db.analyses, r.id = id → r.status ≠ .done) ∧
    ∀ songId ∈ w.givesUpPrep a, ∀ r ∈ w.db.songs, r.id = songId → r.prepStatus ≠ .ready

instance (w : World) (a : Action) : Decidable (KeepsOutcomes w a) :=
  inferInstanceAs (Decidable (_ ∧ _ ∧ _))

theorem OutcomesKept.step (h : OutcomesKept cfg w) (hcond : KeepsOutcomes w a)
    (hstep : step cfg w a = some w') : OutcomesKept cfg w' := by
  obtain ⟨hhandles, hgivesUp, hgivesUpPrep⟩ := hcond
  refine ⟨h.sound.step hstep, ?_, ?_⟩
  · exact h.analyses.step (step_analysesMoved hstep) (step_nextUuid hstep) h.sound.fresh
      (fun r hr t ht => h.sound.db.eq_of_id hr ht) (step_analysisTurns hstep) hhandles hgivesUp
  · exact h.songs.step (step_songsMoved hstep) (step_nextUuid hstep) h.sound.freshSongs
      (fun r hr t ht => h.sound.eq_of_songId hr ht) (step_songTurns hstep)
      (fun _ _ _ _ _ => not_false) hgivesUpPrep

/-- What the actions `after`, taken from `w` to `w'`, leave of the terminal outcomes. -/
def OutcomesStay (after : List Action) (w w' : World) : Prop :=
  (∀ r ∈ w.db.analyses, r.status = .done → w'.db.OnlyStatus r.id .done) ∧
    (∀ r ∈ w.db.analyses, r.status = .failed → (∀ a ∈ after, a.retries ≠ some r.id) →
      w'.db.OnlyStatus r.id .failed) ∧
    ∀ r ∈ w.db.songs, r.prepStatus = .ready →
      ∀ t ∈ w'.db.songs, t.id = r.id → t.prepStatus = .ready

instance (after : List Action) (w w' : World) : Decidable (OutcomesStay after w w') :=
  inferInstanceAs (Decidable (_ ∧ _ ∧ _))

/-- What every step keeps of one row, a run keeps. -/
theorem outcome_run {P : World → Prop} {Q : Action → Prop} {id : ℕ} {as : List Action}
    (hkeep : ∀ w a w', OutcomesKept cfg w → id < w.nextUuid → Q a → P w →
      step cfg w a = some w' → P w')
    (hinv : OutcomesKept cfg w) (htaken : id < w.nextUuid) (hP : P w) (hQ : ∀ a ∈ as, Q a)
    (hmeets : Meets (step cfg) KeepsOutcomes w as) (hrun : exec (step cfg) w as = some w') :
    P w' := by
  have hlast : OutcomesKept cfg w' ∧ id < w'.nextUuid ∧ P w' := by
    refine invariant (fun w => OutcomesKept cfg w ∧ id < w.nextUuid ∧ P w)
      (fun s a s' h hcond hs => ?_) ⟨hinv, htaken, hP⟩ (meets_and hmeets hQ) hrun
    obtain ⟨hs₁, hs₂, hs₃⟩ := h
    exact ⟨hs₁.step hcond.1 hs, hs₂.trans_le (step_nextUuid hs),
      hkeep s a s' hs₁ hs₂ hcond.2 hs₃ hs⟩
  exact hlast.2.2

/-! ## Two runs -/

/-- The worker takes up the first analysis and runs its entries. -/
def runsFirstAnalysis : List Action :=
  [.deliver, .work, .work, .work] ++
    (defaultConfig.analysisEntries .clean).flatMap fun members =>
      .entrySucceeds :: members.map fun _ => .work

/-- An analysis is marked done and its entry is yet to be acknowledged. -/
def completesFirstAnalysis : List Action :=
  preparesFirstSong ++ enqueuesReady 7 0 1 1 ++ runsFirstAnalysis ++ [.work, .work]

/-- The worker crashes; its successor reclaims the entry and handles it again. -/
def handlesAgain : List Action :=
  [.crash, .start 0, .sleep pendingClaimMinIdle, .reclaimRun 1, .work, .work, .work, .work, .work,
   .work, .work]

def completedOnce : World :=
  (exec (step defaultConfig) {} completesFirstAnalysis).get (by decide +kernel)

def completedTwice : World :=
  (exec (step defaultConfig) completedOnce handlesAgain).get (by decide +kernel)

/-- The first stage fails, and the analysis is marked failed before the worker crashes. -/
def failsFirstAnalysis : List Action :=
  preparesFirstSong ++ enqueuesReady 7 0 1 1 ++
    [.deliver, .work, .work, .work, .entryFails "NO_VOICE_DETECTED", .work]

end VocalCoach
