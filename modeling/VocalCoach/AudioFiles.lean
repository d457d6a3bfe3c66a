/-
# The audio of what can still run

A recording is transcoded into the store before the row of its analysis is created, and an
uploaded song before the row of the song.  The worker deletes the file when the job is
done with it; a request that finds the queue full deletes the file of the row it undoes;
and `Sweep`, which the API runs every minute, deletes whatever is older than a day.

`AudioState` is the running system together with the store.  A file is needed as long as
the row may still run and the first stage, which reads it, is not saved (`NeedsAudio`).
`audioKept_iff` is the exact condition under which every needed file is there.

Files are called by the id of their row.  A file that has no row yet is an upload; which
request it belongs to is said by the step that creates the row.
-/
import VocalCoach.FileStore
import VocalCoach.Outcomes
import VocalCoach.QueueTickets

namespace VocalCoach

open RedisStream Machine Resumption Storage

variable {cfg : Config} {w w' : World} {a : Action} {e : Effect}

/-! ## The store beside the system -/

/-- `orphanedAudioMaxAge`: a day. -/
def orphanedAudioMaxAge : Time := 24 * 60 * 60

/-- `PathFor`, by prefix and id. -/
inductive AudioPath
  | analysis (id : AnalysisId)
  | song (id : SongId)
  /-- Transcoded for a row that is yet to be created. -/
  | upload (n : ℕ)
  deriving DecidableEq, Repr

/-- The system and its audio.  `cleaning`: what `_cleanup` is about to unlink. -/
structure AudioState where
  world : World := {}
  store : FileStore AudioPath := {}
  uploads : List ℕ := []
  nextUpload : ℕ := 0
  cleaning : Option AudioPath := none

inductive AudioAction
  /-- A step of the system that creates no row with audio. -/
  | sys (a : Action)
  /-- `Transcode` of an upload into its canonical file. -/
  | transcode
  /-- A request that ends before it creates its row removes its file. -/
  | discard (n : ℕ)
  /-- `Create` in `Enqueue`, after the upload `n`. -/
  | createAnalysis (userId : UserId) (songId : SongId) (mode : AnalysisMode) (songReady : Bool)
      (n : ℕ)
  /-- `GetOrCreate` of new content in `AddFromUpload`, after the upload `n`. -/
  | createSong (n : ℕ)
  /-- `Remove` of `Enqueue` before the `Delete` that undoes the row. -/
  | removeRecording (id : AnalysisId)
  /-- `Remove` of `enqueuePrep` before the `Delete` that undoes the row. -/
  | removeSource (songId : SongId)
  /-- The `unlink` of `_cleanup`. -/
  | unlink
  /-- `Sweep`; the files it could not delete. -/
  | sweep (refused : List AudioPath)
  deriving DecidableEq, Repr

/-- The steps that create a row with audio. -/
def Action.createsAudio : Action → Bool
  | .advance (.enqueueCreate ..) | .request .addSong => true
  | _ => false

/-- What `_cleanup` unlinks once the outcome is recorded: `handle` of an analysis after
`mark_done`, `handle` of a song after the last append of `_wake_ready`. -/
def AudioState.cleaningAfter (s : AudioState) : Action → Option AudioPath
  | .work =>
      match s.world.worker with
      | .analysisDone _ id => some (.analysis id)
      | .prepAppend _ songId [] => some (.song songId)
      | _ => none
  | .crash => none
  | _ => s.cleaning

/-- One step of the system and its store. -/
def audioStep (cfg : Config) (s : AudioState) : AudioAction → Option AudioState
  | .sys a =>
      -- `_cleanup` comes before the acknowledgement
      if a.createsAudio ∨ (a = .work ∧ s.cleaning ≠ none) then none
      else (step cfg s.world a).map fun w =>
        { s with world := w, cleaning := s.cleaningAfter a }
  | .transcode => some
      { s with
        store := s.store.write (.upload s.nextUpload) s.world.now
        uploads := s.nextUpload :: s.uploads
        nextUpload := s.nextUpload + 1 }
  | .discard n =>
      if n ∈ s.uploads then some
        { s with store := s.store.remove (.upload n), uploads := s.uploads.erase n }
      else none
  | .createAnalysis userId songId mode songReady n =>
      if n ∈ s.uploads then
        (step cfg s.world (.advance (.enqueueCreate userId songId mode songReady))).map fun w =>
          { s with
            world := w
            store :=
              if (s.world.db.song songId).isNone then s.store.remove (.upload n)
              else s.store.rename (.upload n) (.analysis s.world.nextUuid)
            uploads := s.uploads.erase n }
      else none
  | .createSong n =>
      if n ∈ s.uploads then
        (step cfg s.world (.request .addSong)).map fun w =>
          { s with
            world := w
            store := s.store.rename (.upload n) (.song s.world.nextUuid)
            uploads := s.uploads.erase n }
      else none
  | .removeRecording id =>
      if .enqueueRollBack id ∈ s.world.calls then
        some { s with store := s.store.remove (.analysis id) }
      else none
  | .removeSource songId =>
      if .songRollBack songId ∈ s.world.calls then
        some { s with store := s.store.remove (.song songId) }
      else none
  | .unlink => s.cleaning.map fun path =>
      { s with store := s.store.remove path, cleaning := none }
  | .sweep refused => some
      { s with store := (s.store.sweep orphanedAudioMaxAge s.world.now refused).1 }

/-! ## Needed files -/

/-- The analysis may still run, and `preprocess`, which reads its recording, is not saved. -/
def Analysis.awaitsPreprocess (r : Analysis) : Bool :=
  r.status ≠ .done ∧ r.status ≠ .canceled ∧ "preprocess" ∉ r.stages

/-- The song may still be prepared, and `prep_reference`, which reads its source, is not
saved. -/
def Song.awaitsPrepReference (t : Song) : Bool :=
  t.prepStatus ≠ .ready ∧ "prep_reference" ∉ t.prepStages

/-- A row is going to read the file. -/
def Database.NeedsAudio (db : Database) : AudioPath → Prop
  | .analysis id => ∃ r ∈ db.analyses, r.id = id ∧ r.awaitsPreprocess
  | .song id => ∃ t ∈ db.songs, t.id = id ∧ t.awaitsPrepReference
  | .upload _ => False

/-- **What can still run still has its audio.** -/
structure AudioKept (s : AudioState) : Prop where
  recordings : ∀ r ∈ s.world.db.analyses, r.awaitsPreprocess → s.store.Has (.analysis r.id)
  sources : ∀ t ∈ s.world.db.songs, t.awaitsPrepReference → s.store.Has (.song t.id)

instance (db : Database) (path : AudioPath) : Decidable (db.NeedsAudio path) :=
  match path with
  | .analysis _ => inferInstanceAs (Decidable (∃ r ∈ db.analyses, _))
  | .song _ => inferInstanceAs (Decidable (∃ t ∈ db.songs, _))
  | .upload _ => inferInstanceAs (Decidable False)

instance (s : AudioState) : Decidable (AudioKept s) :=
  decidable_of_iff ((∀ r ∈ s.world.db.analyses, r.awaitsPreprocess → s.store.Has (.analysis r.id)) ∧
      ∀ t ∈ s.world.db.songs, t.awaitsPrepReference → s.store.Has (.song t.id))
    ⟨fun h => ⟨h.1, h.2⟩, fun h => ⟨h.recordings, h.sources⟩⟩

theorem audioKept_iff_needed {s : AudioState} :
    AudioKept s ↔ ∀ path, s.world.db.NeedsAudio path → s.store.Has path := by
  constructor
  · intro h path hneeds
    cases path with
    | analysis id =>
      obtain ⟨r, hr, rfl, hawaits⟩ := hneeds
      exact h.recordings r hr hawaits
    | song id =>
      obtain ⟨t, ht, rfl, hawaits⟩ := hneeds
      exact h.sources t ht hawaits
    | upload n => exact hneeds.elim
  · intro h
    exact ⟨fun r hr hawaits => h (.analysis r.id) ⟨r, hr, rfl, hawaits⟩,
      fun t ht hawaits => h (.song t.id) ⟨t, ht, rfl, hawaits⟩⟩

/-! ## What a step makes of the needs -/

/-- The analysis a statement takes up or fails, whatever its status. -/
def Statement.attempts : Statement → Option AnalysisId
  | .markProcessing id .. | .markFailed id _ => some id
  | _ => none

/-- The step takes up or fails a canceled analysis whose `preprocess` is not saved. -/
def Reopens (cfg : Config) (w : World) (a : Action) (id : AnalysisId) : Prop :=
  (stepStatement cfg w a).bind Statement.attempts = some id ∧
    ∃ r ∈ w.db.analyses, r.id = id ∧ r.status = .canceled ∧ "preprocess" ∉ r.stages

/-- What is created with its audio. -/
def Statement.createsFor : Statement → Option AudioPath
  | .create id .. => some (.analysis id)
  | .createSong id => some (.song id)
  | _ => none

/-- The jobs read their audio in a first stage. -/
structure ReadsAudio (cfg : Config) : Prop where
  analyses : ∀ mode, "preprocess" ∈ (cfg.analysisEntries mode).flatten
  songs : "prep_reference" ∈ cfg.prepEntries.flatten

/-- A job that is over has all its stages saved. -/
structure JobsCovered (cfg : Config) (w : World) : Prop where
  sound : w.Sound
  analyses : (analysisJobs cfg).Covering w.db.analyses w.nextUuid w.worker.analysisView
  songs : (songJobs cfg).Covering w.db.songs w.nextUuid w.worker.songView

theorem JobsCovered.empty : JobsCovered cfg {} :=
  ⟨World.Sound.empty, ⟨by simp, nofun⟩, ⟨by simp, nofun⟩⟩

theorem JobsCovered.step (h : JobsCovered cfg w) (hstep : step cfg w a = some w') :
    JobsCovered cfg w' := by
  refine ⟨h.sound.step hstep, ?_, ?_⟩
  · exact h.analyses.step (step_analysesMoved hstep) (step_nextUuid hstep) h.sound.fresh
      (fun r hr t ht => h.sound.db.eq_of_id hr ht) (step_analysisTurns hstep)
  · exact h.songs.step (step_songsMoved hstep) (step_nextUuid hstep) h.sound.freshSongs
      (fun r hr t ht => h.sound.eq_of_songId hr ht) (step_songTurns hstep)

/-- What is covered with nothing left to run is saved. -/
theorem saved_of_covered {Row : Type} {J : Jobs Row String} {r : Row} {stage : String}
    (h : J.Covered r []) (hstage : stage ∈ (J.entries r).flatten) : stage ∈ J.saved r :=
  (h stage hstage).resolve_right List.not_mem_nil

section Needs

variable (hreads : ReadsAudio cfg) (h : JobsCovered cfg w)

include hreads h

/-- An analysis that is done has read its recording. -/
theorem JobsCovered.done {r : Analysis} (hr : r ∈ w.db.analyses) (hdone : r.status = .done) :
    "preprocess" ∈ r.stages :=
  saved_of_covered (h.analyses.finished r hr hdone) (hreads.analyses r.mode)

/-- A song that is ready has had its source read. -/
theorem JobsCovered.ready {t : Song} (ht : t ∈ w.db.songs) (hready : t.prepStatus = .ready) :
    "prep_reference" ∈ t.prepStages :=
  saved_of_covered (h.songs.finished t ht hready) hreads.songs

/-- A row of an analysis that needs its recording after a step needed it before, or was
reopened. -/
theorem JobsCovered.awaits_row {s : Statement} {b r : Analysis} (hb : b ∈ w.db.analyses)
    (hbr : s.onRow w.now w.db b = some r) (hawaits : r.awaitsPreprocess) :
    b.awaitsPreprocess ∨
      (b.status = .canceled ∧ "preprocess" ∉ b.stages ∧ s.attempts = some b.id) := by
  simp only [Analysis.awaitsPreprocess, decide_eq_true_eq] at hawaits ⊢
  obtain ⟨hdone, hcanceled, hstage⟩ := hawaits
  have hunsaved : "preprocess" ∉ b.stages := fun hin => hstage (onRow_stages hbr hin)
  have hbdone : b.status ≠ .done := fun hb' => hunsaved (h.done hreads hb hb')
  by_cases hbcanceled : b.status = .canceled
  · refine Or.inr ⟨hbcanceled, hunsaved, ?_⟩
    rcases onRow_status hbr with hsame | hmove
    · rw [hsame] at hcanceled
      exact absurd hbcanceled hcanceled
    generalize r.status = status at hmove hdone hcanceled
    cases hmove with
    | markProcessing hid | markFailed hid => rw [Statement.attempts, hid]
    | cancel => exact absurd rfl hcanceled
    | markDone => exact absurd rfl hdone
    | retry hguard | retryToWaitingForReference hguard =>
      have hfailed := (Analysis.retryable_iff.mp hguard).2.2
      rw [hbcanceled] at hfailed
      cases hfailed
    | wake hguard | failWaiting hguard =>
      have hwaiting := (Analysis.waitingFor_iff.mp hguard).2
      rw [hbcanceled] at hwaiting
      cases hwaiting
  · exact Or.inl ⟨hbdone, hbcanceled, hunsaved⟩

/-- **Where a need comes from**: it was there, a canceled analysis is reopened, or the row
is new. -/
theorem needsAudio_of_step (hstep : step cfg w a = some w') {path : AudioPath}
    (hneeds : w'.db.NeedsAudio path) :
    w.db.NeedsAudio path ∨ (∃ id, path = .analysis id ∧ Reopens cfg w a id) ∨
      (stepStatement cfg w a).bind Statement.createsFor = some path := by
  cases path with
  | analysis id =>
    obtain ⟨r, hr, rfl, hawaits⟩ := hneeds
    rcases step_row hstep hr with hr | ⟨e, s, hplan, hs, ⟨b, hb, hbr⟩ | hins⟩
    · exact Or.inl ⟨r, hr, rfl, hawaits⟩
    · have hid := onRow_id hbr
      rcases h.awaits_row hreads hb hbr hawaits with hawaits | ⟨hcanceled, hunsaved, hattempts⟩
      · exact Or.inl ⟨b, hb, hid.symm, hawaits⟩
      · refine Or.inr (Or.inl ⟨r.id, rfl, ?_, b, hb, hid.symm, hcanceled, hunsaved⟩)
        rw [stepStatement_eq hplan, hs, Option.bind_some, hattempts, hid]
    · refine Or.inr (Or.inr ?_)
      rw [stepStatement_eq hplan, hs, Option.bind_some]
      cases s <;> simp only [Statement.inserted, List.mem_singleton, List.not_mem_nil] at hins
      rw [hins]
      rfl
  | song id =>
    obtain ⟨t, ht, rfl, hawaits⟩ := hneeds
    rcases step_song hstep ht with ht | ⟨e, s, hplan, hs, ⟨b, hb, hbt⟩ | hins⟩
    · exact Or.inl ⟨t, ht, rfl, hawaits⟩
    · simp only [Song.awaitsPrepReference, decide_eq_true_eq] at hawaits
      have hunsaved : "prep_reference" ∉ b.prepStages :=
        fun hin => hawaits.2 (onSong_stages hbt hin)
      refine Or.inl ⟨b, hb, (onSong_id hbt).symm, ?_⟩
      simp only [Song.awaitsPrepReference, decide_eq_true_eq]
      exact ⟨fun hready => hunsaved (h.ready hreads hb hready), hunsaved⟩
    · refine Or.inr (Or.inr ?_)
      rw [stepStatement_eq hplan, hs, Option.bind_some]
      cases s <;> simp only [Statement.insertedSongs, List.mem_singleton, List.not_mem_nil] at hins
      rw [hins]
      rfl
  | upload n => exact hneeds.elim

end Needs

/-- A reopened analysis needs its recording. -/
theorem needsAudio_of_reopens (hstep : step cfg w a = some w') {id : AnalysisId}
    (hreopens : Reopens cfg w a id) : w'.db.NeedsAudio (.analysis id) := by
  obtain ⟨hattempts, r, hr, rfl, -, hunsaved⟩ := hreopens
  obtain ⟨s, hs, hid⟩ := Option.bind_eq_some_iff.mp hattempts
  have hdb : w'.db = s.run w.now w.db := by rw [step_db hstep, hs, Option.elim_some]
  cases s <;> cases hid
  case markProcessing first index total =>
    refine ⟨r.processing first index total w.now, ?_, rfl, ?_⟩
    · rw [hdb]
      exact mem_run.mpr (Or.inl ⟨r, hr, by simp [Statement.onRow]⟩)
    · simp [Analysis.awaitsPreprocess, Analysis.processing, hunsaved]
  case markFailed errorCode =>
    refine ⟨r.failedWith errorCode w.now, ?_, rfl, ?_⟩
    · rw [hdb]
      exact mem_run.mpr (Or.inl ⟨r, hr, by simp [Statement.onRow]⟩)
    · simp [Analysis.awaitsPreprocess, Analysis.failedWith, hunsaved]

/-- A new row needs its audio. -/
theorem needsAudio_of_creates (hstep : step cfg w a = some w') {path : AudioPath}
    (hcreates : (stepStatement cfg w a).bind Statement.createsFor = some path) :
    w'.db.NeedsAudio path := by
  obtain ⟨s, hs, hpath⟩ := Option.bind_eq_some_iff.mp hcreates
  have hdb : w'.db = s.run w.now w.db := by rw [step_db hstep, hs, Option.elim_some]
  cases s <;> cases hpath
  case create id userId songId status mode =>
    obtain ⟨e, hplan, hstatement⟩ : ∃ e, plan cfg w a = some e ∧
        e.statement = some (.create id userId songId status mode) :=
      Option.bind_eq_some_iff.mp hs
    obtain ⟨r, hins⟩ :
        ∃ r, r ∈ (Statement.create id userId songId status mode).inserted w.now w.db :=
      ⟨_, List.mem_singleton_self _⟩
    have hr := List.mem_singleton.mp hins
    have hstages : r.stages = [] := by rw [hr]
    refine ⟨r, hdb ▸ mem_run.mpr (Or.inr hins), by rw [hr], ?_⟩
    rcases plan_inserted_status hplan hstatement hins with hstatus | hstatus <;>
      simp [Analysis.awaitsPreprocess, hstatus, hstages]
  case createSong id =>
    refine ⟨{ id }, ?_, rfl, by simp [Song.awaitsPrepReference]⟩
    rw [hdb]
    exact mem_run_songs.mpr (Or.inr (List.mem_singleton_self _))

/-! ## Files that are done with -/

/-- The row of the file, if there is one, has saved the stage that reads it. -/
def World.DoneWith (w : World) : AudioPath → Prop
  | .analysis id => id < w.nextUuid ∧ ∀ r ∈ w.db.analyses, r.id = id → "preprocess" ∈ r.stages
  | .song id => id < w.nextUuid ∧ ∀ t ∈ w.db.songs, t.id = id → "prep_reference" ∈ t.prepStages
  | .upload _ => True

theorem World.DoneWith.not_needs {path : AudioPath} (h : w.DoneWith path) :
    ¬ w.db.NeedsAudio path := by
  intro hneeds
  cases path with
  | analysis id =>
    obtain ⟨r, hr, hid, hawaits⟩ := hneeds
    simp only [Analysis.awaitsPreprocess, decide_eq_true_eq] at hawaits
    exact hawaits.2.2 (h.2 r hr hid)
  | song id =>
    obtain ⟨t, ht, hid, hawaits⟩ := hneeds
    simp only [Song.awaitsPrepReference, decide_eq_true_eq] at hawaits
    exact hawaits.2 (h.2 t ht hid)
  | upload n => exact hneeds

/-- What is done with stays so: saved stages stay saved and ids are not drawn twice. -/
theorem World.DoneWith.step {path : AudioPath} (h : w.DoneWith path)
    (hstep : step cfg w a = some w') : w'.DoneWith path := by
  cases path with
  | analysis id =>
    refine ⟨h.1.trans_le (step_nextUuid hstep), fun r hr hid => ?_⟩
    rcases step_row hstep hr with hr | ⟨e, s, hplan, hs, ⟨b, hb, hbr⟩ | hins⟩
    · exact h.2 r hr hid
    · exact onRow_stages hbr (h.2 b hb ((onRow_id hbr).symm.trans hid))
    · have hnew := (plan_newId hplan hs (inserted_id hins).1).1
      exact absurd (hid ▸ hnew ▸ h.1) (Nat.lt_irrefl _)
  | song id =>
    refine ⟨h.1.trans_le (step_nextUuid hstep), fun t ht hid => ?_⟩
    rcases step_song hstep ht with ht | ⟨e, s, hplan, hs, ⟨b, hb, hbt⟩ | hins⟩
    · exact h.2 t ht hid
    · exact onSong_stages hbt (h.2 b hb ((onSong_id hbt).symm.trans hid))
    · obtain ⟨rfl, -⟩ := plan_insertedSongs hplan hs hins
      exact absurd (hid ▸ h.1) (Nat.lt_irrefl _)
  | upload n => trivial

/-- The song the worker has marked ready and whose waiting analyses it is waking. -/
def Worker.readied : Worker → Option SongId
  | .prepWake _ songId | .prepAppend _ songId _ => some songId
  | _ => none

/-- How a song gets there: it is there already, or `mark_prep_ready` comes next. -/
theorem step_readied (hstep : step cfg w a = some w') {songId : SongId}
    (hsong : w'.worker.readied = some songId) :
    w.worker.readied = some songId ∨ w.worker.songView = .todo songId [] := by
  rcases step_cases hstep with hlife | ⟨e, hplan, rfl⟩
  · rcases (lifecycle_untouched hlife).worker with hw | hw | hw <;> rw [hw] at hsong
    · exact Or.inl hsong
    · cases hsong
    · cases hsong
  by_cases ha : a.ofApi
  · have hworker : (w.apply e).worker = w.worker := plan_worker hplan ha
    exact Or.inl (hworker ▸ hsong)
  have hmove := plan_move hplan (by simpa using ha)
  generalize w.worker = worker at hmove
  cases hmove
  case markPrepReady =>
    cases hsong
    exact Or.inr rfl
  all_goals first
    | exact Or.inl hsong
    | cases hsong

/-- The row of a file has its id already. -/
def World.Names (w : World) : AudioPath → Prop
  | .analysis id | .song id => id < w.nextUuid
  | .upload _ => True

/-- What holds of the system and its store in every reachable state. -/
structure AudioSound (cfg : Config) (s : AudioState) : Prop where
  jobs : JobsCovered cfg s.world
  readied : ∀ songId, s.world.worker.readied = some songId → s.world.DoneWith (.song songId)
  cleaning : ∀ path, s.cleaning = some path → s.world.DoneWith path
  named : ∀ path, s.store.Has path → s.world.Names path

theorem AudioSound.empty : AudioSound cfg {} :=
  ⟨JobsCovered.empty, nofun, nofun, by rintro path ⟨f, hf, -⟩; cases hf⟩

theorem World.Names.step {path : AudioPath} (h : w.Names path) (hstep : step cfg w a = some w') :
    w'.Names path := by
  cases path with
  | analysis id => exact Nat.lt_of_lt_of_le h (step_nextUuid hstep)
  | song id => exact Nat.lt_of_lt_of_le h (step_nextUuid hstep)
  | upload n => trivial

/-- A job with nothing left to run is done with its audio. -/
theorem doneWith_of_view (hreads : ReadsAudio cfg) (h : JobsCovered cfg w) :
    (∀ id, w.worker.analysisView = .todo id [] → w.DoneWith (.analysis id)) ∧
      ∀ id, w.worker.songView = .todo id [] → w.DoneWith (.song id) := by
  constructor
  · intro id hview
    obtain ⟨htaken, hcov⟩ := h.analyses.todo id [] hview
    exact ⟨htaken, fun r hr hid => saved_of_covered (hcov r hr hid) (hreads.analyses r.mode)⟩
  · intro id hview
    obtain ⟨htaken, hcov⟩ := h.songs.todo id [] hview
    exact ⟨htaken, fun t ht hid => saved_of_covered (hcov t ht hid) hreads.songs⟩

/-- What a step of the system keeps of the worker's side. -/
theorem AudioSound.readied_step {s : AudioState} (h : AudioSound cfg s) (hreads : ReadsAudio cfg)
    (hstep : step cfg s.world a = some w') {songId : SongId}
    (hsong : w'.worker.readied = some songId) : w'.DoneWith (.song songId) := by
  rcases step_readied hstep hsong with hthere | hview
  · exact (h.readied songId hthere).step hstep
  · exact ((doneWith_of_view hreads h.jobs).2 songId hview).step hstep

/-- `_cleanup` unlinks a file that is done with. -/
theorem AudioSound.cleaningAfter {s : AudioState} (h : AudioSound cfg s)
    (hreads : ReadsAudio cfg) {path : AudioPath} (hpath : s.cleaningAfter a = some path) :
    s.world.DoneWith path := by
  cases a
  case work =>
    simp only [AudioState.cleaningAfter] at hpath
    split at hpath
    next entry id hworker =>
      cases hpath
      exact (doneWith_of_view hreads h.jobs).1 id (by rw [hworker]; rfl)
    next entry songId hworker =>
      cases hpath
      exact h.readied songId (by rw [hworker]; rfl)
    next => cases hpath
  case crash => cases hpath
  all_goals exact h.cleaning path hpath

/-! ## What is created -/

/-- The other steps create nothing that has audio. -/
theorem createsFor_of_not_createsAudio (ha : a.createsAudio = false) :
    (stepStatement cfg w a).bind Statement.createsFor = none := by
  cases hs : stepStatement cfg w a with
  | none => rfl
  | some s =>
    obtain ⟨e, hplan, hstatement⟩ := Option.bind_eq_some_iff.mp hs
    cases s
    case create =>
      cases plan_apiStatement hplan hstatement rfl <;> cases ha
    case createSong =>
      cases plan_apiStatement hplan hstatement rfl
      cases ha
    all_goals rfl

/-- `Create` misses when the song is gone. -/
theorem stepStatement_enqueueCreate {userId : UserId} {songId : SongId} {mode : AnalysisMode}
    {songReady : Bool}
    (hstep : step cfg w (.advance (.enqueueCreate userId songId mode songReady)) = some w') :
    stepStatement cfg w (.advance (.enqueueCreate userId songId mode songReady)) =
      if (w.db.song songId).isNone then none
      else some (.create w.nextUuid userId songId
        (if songReady then .queued else .waitingForReference) mode) := by
  rcases step_cases hstep with hlife | ⟨e, hplan, -⟩
  · cases hlife
  · rw [stepStatement_eq hplan]
    simp only [plan, Call.plan, Option.ite_none_right_eq_some, Option.some.injEq] at hplan
    obtain ⟨-, rfl⟩ := hplan
    split_ifs <;> rfl

/-- What is needed has a row. -/
theorem World.Sound.names (h : w.Sound) {path : AudioPath} (hneeds : w.db.NeedsAudio path) :
    w.Names path := by
  cases path with
  | analysis id =>
    obtain ⟨r, hr, rfl, -⟩ := hneeds
    exact h.fresh r hr
  | song id =>
    obtain ⟨t, ht, rfl, -⟩ := hneeds
    exact h.freshSongs t ht
  | upload n => trivial

/-! ## Every step -/

/-- The steps that leave what is needed where it is: a canceled analysis is reopened only
while its recording is there, a row is created while its upload is there, a request that
undoes a row finds that nobody needs its file any more, and no needed file is as old as
`Sweep` asks for. -/
def SparesAudio (cfg : Config) (s : AudioState) : AudioAction → Prop
  | .sys a => ∀ id, Reopens cfg s.world a id → s.store.Has (.analysis id)
  | .createAnalysis _ songId _ _ n => (s.world.db.song songId).isSome → s.store.Has (.upload n)
  | .createSong n => s.store.Has (.upload n)
  | .removeRecording id => ¬ s.world.db.NeedsAudio (.analysis id)
  | .removeSource songId => ¬ s.world.db.NeedsAudio (.song songId)
  | .sweep refused => ∀ f ∈ s.store.files, s.world.db.NeedsAudio f.name →
      f.stale orphanedAudioMaxAge s.world.now → f.name ∈ refused
  | .transcode | .discard _ | .unlink => True

/-- **A step of the system keeps what is needed** if and only if what it reopens and what it
creates has its audio; the files of the other rows are as they were. -/
theorem needs_kept_iff (hreads : ReadsAudio cfg) (h : JobsCovered cfg w)
    (hstep : step cfg w a = some w') {store store' : FileStore AudioPath}
    (hkept : ∀ path, w.db.NeedsAudio path → store.Has path)
    (hsame : ∀ path, w.db.NeedsAudio path ∨ (∃ id, path = .analysis id ∧ Reopens cfg w a id) →
      (store'.Has path ↔ store.Has path)) :
    (∀ path, w'.db.NeedsAudio path → store'.Has path) ↔
      (∀ id, Reopens cfg w a id → store.Has (.analysis id)) ∧
        ∀ path, (stepStatement cfg w a).bind Statement.createsFor = some path →
          store'.Has path := by
  constructor
  · intro hall
    refine ⟨fun id hreopens => ?_, fun path hcreates => ?_⟩
    · rw [← hsame _ (Or.inr ⟨id, rfl, hreopens⟩)]
      exact hall _ (needsAudio_of_reopens hstep hreopens)
    · exact hall path (needsAudio_of_creates hstep hcreates)
  · rintro ⟨hreopened, hcreated⟩ path hneeds
    rcases needsAudio_of_step hreads h hstep hneeds with hthere | ⟨id, rfl, hreopens⟩ | hcreates
    · exact (hsame path (Or.inl hthere)).mpr (hkept path hthere)
    · exact (hsame _ (Or.inr ⟨id, rfl, hreopens⟩)).mpr (hreopened id hreopens)
    · exact hcreated path hcreates

/-- What is needed or reopened is no upload, and not what is created next. -/
theorem World.Sound.wanted (h : w.Sound) {path : AudioPath}
    (hpath : w.db.NeedsAudio path ∨ ∃ id, path = .analysis id ∧ Reopens cfg w a id) :
    (∀ n, path ≠ .upload n) ∧ path ≠ .analysis w.nextUuid ∧ path ≠ .song w.nextUuid := by
  have hold : ∀ id, path = .analysis id → id < w.nextUuid := by
    rintro id rfl
    rcases hpath with hneeds | ⟨id', heq, -, r, hr, hid, -⟩
    · exact h.names hneeds
    · cases heq
      exact hid ▸ h.fresh r hr
  refine ⟨?_, fun heq => absurd (hold _ heq) (Nat.lt_irrefl _), ?_⟩
  · rintro n rfl
    rcases hpath with hneeds | ⟨id, heq, -⟩
    · exact hneeds
    · cases heq
  · rintro rfl
    rcases hpath with hneeds | ⟨id, heq, -⟩
    · exact absurd (h.names hneeds) (Nat.lt_irrefl _)
    · cases heq

/-- Deleting one file leaves the others. -/
theorem audioKept_remove_iff {s : AudioState} {store : FileStore AudioPath} {uploads : List ℕ}
    {cleaning : Option AudioPath} (hkept : AudioKept s) {name : AudioPath}
    (hstore : store = s.store.remove name) :
    AudioKept { s with store, uploads, cleaning } ↔ ¬ s.world.db.NeedsAudio name := by
  rw [audioKept_iff_needed] at hkept ⊢
  constructor
  · intro hall hneeds
    have hthere : store.Has name := hall name hneeds
    rw [hstore] at hthere
    exact (FileStore.has_remove.mp hthere).1 rfl
  · intro hnot path hneeds
    show store.Has path
    rw [hstore]
    refine FileStore.has_remove.mpr ⟨?_, hkept path hneeds⟩
    rintro rfl
    exact hnot hneeds

section Steps

variable (hreads : ReadsAudio cfg) {s s' : AudioState} {b : AudioAction}

include hreads

/-- **Every step keeps the invariant.** -/
theorem AudioSound.step (h : AudioSound cfg s) (hstep : audioStep cfg s b = some s') :
    AudioSound cfg s' := by
  -- a step that only deletes or renames files for rows that are there
  have hstore : ∀ {store : FileStore AudioPath} {uploads : List ℕ} {nextUpload : ℕ}
      {cleaning : Option AudioPath}, (∀ path, store.Has path → s.world.Names path) →
      (∀ path, cleaning = some path → s.cleaning = some path) →
      AudioSound cfg { s with store, uploads, nextUpload, cleaning } := by
    intro store uploads nextUpload cleaning hnamed hcleaning
    exact ⟨h.jobs, h.readied, fun path hpath => h.cleaning path (hcleaning path hpath), hnamed⟩
  -- a step of the system
  have hworld : ∀ {a : Action} {w : World} {store : FileStore AudioPath} {uploads : List ℕ}
      {cleaning : Option AudioPath}, VocalCoach.step cfg s.world a = some w →
      (∀ path, store.Has path → w.Names path) →
      (∀ path, cleaning = some path → s.world.DoneWith path) →
      AudioSound cfg { s with world := w, store, uploads, cleaning } := by
    intro a w store uploads cleaning hw hnamed hcleaning
    exact ⟨h.jobs.step hw, fun songId hsong => h.readied_step hreads hw hsong,
      fun path hpath => (hcleaning path hpath).step hw, hnamed⟩
  have hremoved : ∀ name path, (s.store.remove name).Has path → s.world.Names path :=
    fun name path hpath => h.named path (FileStore.has_remove.mp hpath).2
  -- a file that goes by a new name goes by that of a new row
  have hrenamed : ∀ {a : Action} {w : World} {name newName path : AudioPath},
      VocalCoach.step cfg s.world a = some w → w.Names newName →
      (s.store.rename name newName).Has path → w.Names path := by
    intro a w name newName path hw hnew hpath
    by_cases heq : path = newName
    · exact heq ▸ hnew
    · exact (h.named path (FileStore.Has.of_rename heq hpath)).step hw
  cases b with
  | sys a =>
    simp only [audioStep] at hstep
    split_ifs at hstep
    obtain ⟨w, hw, rfl⟩ := Option.map_eq_some_iff.mp hstep
    exact hworld hw (fun path hpath => (h.named path hpath).step hw)
      fun path hpath => h.cleaningAfter hreads hpath
  | transcode =>
    cases hstep
    refine hstore (fun path hpath => ?_) fun _ hpath => hpath
    rcases FileStore.has_write.mp hpath with rfl | hpath
    · trivial
    · exact h.named path hpath
  | discard n =>
    simp only [audioStep, Option.ite_none_right_eq_some, Option.some.injEq] at hstep
    obtain ⟨-, rfl⟩ := hstep
    exact hstore (hremoved _) fun _ hpath => hpath
  | createAnalysis userId songId mode songReady n =>
    simp only [audioStep, Option.ite_none_right_eq_some] at hstep
    obtain ⟨-, hstep⟩ := hstep
    obtain ⟨w, hw, rfl⟩ := Option.map_eq_some_iff.mp hstep
    refine hworld hw (fun path hpath => ?_) h.cleaning
    split_ifs at hpath with hgone
    · exact (hremoved _ path hpath).step hw
    · refine hrenamed hw ?_ hpath
      refine (h.jobs.sound.step hw).names (needsAudio_of_creates hw ?_)
      rw [stepStatement_enqueueCreate hw, if_neg hgone]
      rfl
  | createSong n =>
    simp only [audioStep, Option.ite_none_right_eq_some] at hstep
    obtain ⟨-, hstep⟩ := hstep
    obtain ⟨w, hw, rfl⟩ := Option.map_eq_some_iff.mp hstep
    refine hworld hw (fun path hpath => hrenamed hw ?_ hpath) h.cleaning
    exact (h.jobs.sound.step hw).names (needsAudio_of_creates hw rfl)
  | removeRecording id =>
    simp only [audioStep, Option.ite_none_right_eq_some, Option.some.injEq] at hstep
    obtain ⟨-, rfl⟩ := hstep
    exact hstore (hremoved _) fun _ hpath => hpath
  | removeSource songId =>
    simp only [audioStep, Option.ite_none_right_eq_some, Option.some.injEq] at hstep
    obtain ⟨-, rfl⟩ := hstep
    exact hstore (hremoved _) fun _ hpath => hpath
  | unlink =>
    obtain ⟨path, -, rfl⟩ := Option.map_eq_some_iff.mp hstep
    exact hstore (hremoved _) nofun
  | sweep refused =>
    cases hstep
    exact hstore (fun path hpath => h.named path hpath.of_sweep) fun _ hpath => hpath

/-- **A new row keeps what is needed** if and only if its upload, which then goes by its name, is
there. -/
theorem audioKept_create_iff (h : AudioSound cfg s) (hkept : AudioKept s) {a : Action} {w : World}
    {n : ℕ} {new : AudioPath} {uploads : List ℕ} (hw : VocalCoach.step cfg s.world a = some w)
    (hcreates : (stepStatement cfg s.world a).bind Statement.createsFor = some new)
    (hreopens : ∀ id, ¬ Reopens cfg s.world a id)
    (hnew : new = .analysis s.world.nextUuid ∨ new = .song s.world.nextUuid) :
    AudioKept { s with world := w, store := s.store.rename (.upload n) new, uploads } ↔
      s.store.Has (.upload n) := by
  -- no file goes by the name of a row that is not there yet
  have hfresh : ¬ s.store.Has new := fun hthere => by
    have hnames := h.named new hthere
    rcases hnew with rfl | rfl <;> exact Nat.lt_irrefl _ hnames
  have hrenamed : (s.store.rename (.upload n) new).Has new ↔ s.store.Has (.upload n) :=
    FileStore.has_rename_self hfresh
  rw [audioKept_iff_needed]
  refine (needs_kept_iff hreads h.jobs hw (audioKept_iff_needed.mp hkept) fun path hpath => ?_).trans
    ?_
  · obtain ⟨hupload, hanalysis, hsong⟩ := h.jobs.sound.wanted hpath
    refine FileStore.has_rename_of_ne (hupload n) ?_
    rcases hnew with rfl | rfl
    · exact hanalysis
    · exact hsong
  · rw [and_iff_right fun id hr => absurd hr (hreopens id), hcreates, ← hrenamed]
    constructor
    · exact fun hall => hall new rfl
    · rintro hthere path hpath
      exact Option.some.inj hpath ▸ hthere

/-- **What a step keeps**: a step leaves what is needed where it is if and only if it spares
it. -/
theorem audioKept_step_iff (h : AudioSound cfg s) (hkept : AudioKept s)
    (hstep : audioStep cfg s b = some s') : AudioKept s' ↔ SparesAudio cfg s b := by
  have hneeded := audioKept_iff_needed.mp hkept
  cases b with
  | sys a =>
    simp only [audioStep] at hstep
    split_ifs at hstep with hnot
    obtain ⟨w, hw, rfl⟩ := Option.map_eq_some_iff.mp hstep
    have hnone : (stepStatement cfg s.world a).bind Statement.createsFor = none :=
      createsFor_of_not_createsAudio (by simpa using fun hcreates => hnot (Or.inl hcreates))
    rw [audioKept_iff_needed]
    refine (needs_kept_iff hreads h.jobs hw hneeded fun _ _ => Iff.rfl).trans ?_
    rw [hnone]
    exact and_iff_left nofun
  | transcode =>
    cases hstep
    refine iff_of_true ?_ trivial
    rw [audioKept_iff_needed]
    exact fun path hneeds => FileStore.has_write.mpr (Or.inr (hneeded path hneeds))
  | discard n =>
    simp only [audioStep, Option.ite_none_right_eq_some, Option.some.injEq] at hstep
    obtain ⟨-, rfl⟩ := hstep
    exact iff_of_true ((audioKept_remove_iff hkept rfl).mpr not_false) trivial
  | createAnalysis userId songId mode songReady n =>
    simp only [audioStep, Option.ite_none_right_eq_some] at hstep
    obtain ⟨-, hstep⟩ := hstep
    obtain ⟨w, hw, rfl⟩ := Option.map_eq_some_iff.mp hstep
    have hstatement := stepStatement_enqueueCreate hw
    have hreopens : ∀ id, ¬ Reopens cfg s.world
        (.advance (.enqueueCreate userId songId mode songReady)) id := by
      rintro id ⟨hattempts, -⟩
      rw [hstatement] at hattempts
      split_ifs at hattempts <;> cases hattempts
    show AudioKept { s with world := w, store := if _ then _ else _, uploads := _ } ↔
      ((s.world.db.song songId).isSome = true → s.store.Has (.upload n))
    by_cases hgone : (s.world.db.song songId).isNone = true
    · -- no row is created, and the upload is nobody's
      rw [if_pos hgone] at hstatement ⊢
      refine iff_of_true ?_ fun hsome => ?_
      · rw [audioKept_iff_needed]
        refine (needs_kept_iff hreads h.jobs hw hneeded fun path hpath => ?_).mpr
          ⟨fun id hr => absurd hr (hreopens id), ?_⟩
        · have hupload := (h.jobs.sound.wanted hpath).1 n
          rw [FileStore.has_remove, and_iff_right hupload]
        · rw [hstatement]
          exact nofun
      · rw [Option.isNone_iff_eq_none.mp hgone] at hsome
        cases hsome
    · rw [if_neg hgone] at hstatement ⊢
      have hsome : (s.world.db.song songId).isSome = true := by
        rwa [Option.isSome_iff_ne_none, ne_eq, ← Option.isNone_iff_eq_none]
      rw [forall_prop_of_true hsome]
      refine audioKept_create_iff hreads h hkept hw ?_ hreopens (Or.inl rfl)
      rw [hstatement]
      rfl
  | createSong n =>
    simp only [audioStep, Option.ite_none_right_eq_some] at hstep
    obtain ⟨-, hstep⟩ := hstep
    obtain ⟨w, hw, rfl⟩ := Option.map_eq_some_iff.mp hstep
    refine audioKept_create_iff hreads h hkept hw rfl (fun id hreopens => ?_) (Or.inr rfl)
    cases hreopens.1
  | removeRecording id =>
    -- a roll-back, before the row is deleted
    simp only [audioStep, Option.ite_none_right_eq_some, Option.some.injEq] at hstep
    obtain ⟨-, rfl⟩ := hstep
    exact audioKept_remove_iff hkept rfl
  | removeSource songId =>
    simp only [audioStep, Option.ite_none_right_eq_some, Option.some.injEq] at hstep
    obtain ⟨-, rfl⟩ := hstep
    exact audioKept_remove_iff hkept rfl
  | unlink =>
    -- what `_cleanup` deletes is of a row that is done with it
    obtain ⟨path, hpath, rfl⟩ := Option.map_eq_some_iff.mp hstep
    exact iff_of_true ((audioKept_remove_iff hkept rfl).mpr
      (h.cleaning path hpath).not_needs) trivial
  | sweep refused =>
    cases hstep
    rw [audioKept_iff_needed]
    constructor
    · intro hall f hf hneeds
      exact (FileStore.has_sweep hf).mp (hall f.name hneeds)
    · intro hspares path hneeds
      obtain ⟨f, hf, rfl⟩ := hneeded path hneeds
      exact (FileStore.has_sweep hf).mpr (hspares f hf hneeds)

end Steps

/-! ## Every run -/

/-- Both programs with the limits of the two queues. -/
def configured (queueMaxLength prepQueueMaxLength : ℕ) : Config :=
  { defaultConfig with queueMaxLength, prepQueueMaxLength }

theorem readsAudio_configured (queueMaxLength prepQueueMaxLength : ℕ) :
    ReadsAudio (configured queueMaxLength prepQueueMaxLength) := by
  have hanalyses : ∀ mode, "preprocess" ∈ (defaultConfig.analysisEntries mode).flatten := by
    intro mode
    cases mode <;> decide
  have hsongs : "prep_reference" ∈ defaultConfig.prepEntries.flatten := by decide
  exact ⟨hanalyses, hsongs⟩

/-- **When everything that can still run has its audio.**  In a run from nothing every
state has the files its rows need if and only if every step spares them. -/
theorem audioKept_iff (queueMaxLength prepQueueMaxLength : ℕ) (actions : List AudioAction) :
    Along (audioStep (configured queueMaxLength prepQueueMaxLength)) AudioKept {} actions ↔
      Meets (audioStep (configured queueMaxLength prepQueueMaxLength))
        (SparesAudio (configured queueMaxLength prepQueueMaxLength)) {} actions := by
  have hreads := readsAudio_configured queueMaxLength prepQueueMaxLength
  have hempty : AudioKept {} :=
    ⟨fun r hr => absurd hr List.not_mem_nil, fun r hr => absurd hr List.not_mem_nil⟩
  exact along_iff_meets (AudioSound (configured queueMaxLength prepQueueMaxLength))
    (fun s a s' h hstep => h.step hreads hstep)
    (fun s a s' h hkept hstep => audioKept_step_iff hreads h hkept hstep)
    AudioSound.empty hempty actions

/-- A song is uploaded and its first stage fails. -/
def failsFirstUpload : List AudioAction :=
  [.transcode, .createSong 0] ++
    ([.advance (.songPublish 0), .start 0, .enterLoop, .claimPrep, .pickPrep 1, .work, .work,
      .entryFails "INTERNAL", .work, .work, .work, .work] : List Action).map .sys

/-- A day later its source is deleted, and `RetryPrep` has nothing to prepare it from. -/
theorem not_forall_audioKept :
    ¬ ∀ (queueMaxLength prepQueueMaxLength : ℕ) (actions : List AudioAction) (s : AudioState),
      exec (audioStep (configured queueMaxLength prepQueueMaxLength)) {} actions = some s →
      AudioKept s := by
  intro h
  have hruns : (exec (audioStep (configured 20 20)) {} (failsFirstUpload ++
      [.sys (.sleep (orphanedAudioMaxAge + 1)), .sweep []])).map (fun s => decide (AudioKept s))
        = some false := by
    decide +kernel
  obtain ⟨s, hs, hfalse⟩ := Option.map_eq_some_iff.mp hruns
  exact of_decide_eq_false hfalse (h 20 20 _ s hs)

end VocalCoach
