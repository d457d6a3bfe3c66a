/-
# What one transaction does to one row

Every statement acts on the tables row by row: a row becomes another row or is deleted,
and `INSERT` adds rows at the end (`run_analyses`, `run_songs`).  So an invariant of the
tables is checked on a single row, and what can happen to its status is read off
`Moves`: the statements that change a status, with the guard each one has.
-/
import VocalCoach.Records
import Mathlib.Data.List.Nodup

namespace VocalCoach

/-! ## The guards -/

namespace Analysis

theorem cancelable_iff {id : AnalysisId} {userId : UserId} {a : Analysis} :
    a.cancelable id userId ↔
      a.id = id ∧ a.userId = userId ∧ (a.status = .queued ∨ a.status = .waitingForReference) := by
  simp [cancelable]

theorem retryable_iff {id : AnalysisId} {userId : UserId} {a : Analysis} :
    a.retryable id userId ↔ a.id = id ∧ a.userId = userId ∧ a.status = .failed := by
  simp [retryable]

theorem waitingFor_iff {songId : SongId} {a : Analysis} :
    a.waitingFor songId ↔ a.songId = songId ∧ a.status = .waitingForReference := by
  simp [waitingFor]

end Analysis

/-! ## Rows of `analyses` -/

/-- What a statement makes of a row, `none` when it deletes it. -/
def Statement.onRow (now : Time) (db : Database) : Statement → Analysis → Option Analysis
  | .delete id, a => if a.id = id then none else some a
  | .setQueueStreamId id entry, a => some (if a.id = id then a.withStreamId entry else a)
  | .cancel id userId, a => some (if a.cancelable id userId then a.canceled else a)
  | .retry id userId, a =>
      some (if a.retryable id userId then a.retried .queued db.nextSeq now else a)
  | .retryToWaitingForReference id userId, a =>
      some (if a.retryable id userId then a.retried .waitingForReference db.nextSeq now else a)
  | .recalculatePositions, a =>
      some (if a.status = .queued then a.atPosition (db.rowNumber a) else a)
  | .markProcessing id firstStage stageIndex totalStages, a =>
      some (if a.id = id then a.processing firstStage stageIndex totalStages now else a)
  | .saveStageProgress id stage nextStage nextStageIndex totalStages, a =>
      some (if a.id = id then a.withProgress stage nextStage nextStageIndex totalStages now else a)
  | .markDone id, a => some (if a.id = id then a.completed now else a)
  | .markFailed id errorCode, a => some (if a.id = id then a.failedWith errorCode now else a)
  | .wakeWaitingForReference songId, a =>
      let woken := db.updateAnalyses (Analysis.waitingFor songId) Analysis.woken
      let b := if a.waitingFor songId then a.woken else a
      some (if b.status = .queued then b.atPosition (woken.rowNumber b) else b)
  | .failWaitingForReference songId errorCode, a =>
      some (if a.waitingFor songId then a.failedWaiting errorCode now else a)
  | .deleteSong id, a => if a.songId = id then none else some a
  | _, a => some a

/-- The row a statement inserts. -/
def Statement.inserted (now : Time) (db : Database) : Statement → List Analysis
  | .create id userId songId status mode =>
      [{ id, userId, songId, status, mode, queueSeq := db.nextSeq, queuedAt := now }]
  | _ => []

/-- A row-wise update is a `map`. -/
theorem map_eq_filterMap_append {α β : Type*} {f : α → β} {g : α → Option β}
    (h : ∀ a, g a = some (f a)) (l : List α) : l.map f = l.filterMap g ++ [] := by
  rw [funext h, List.filterMap_eq_map', List.append_nil]

/-- An insertion leaves the rows there are. -/
theorem append_eq_filterMap_append {α : Type*} {g : α → Option α} (h : ∀ a, g a = some a)
    (l inserted : List α) : l ++ inserted = l.filterMap g ++ inserted := by
  rw [funext h, List.filterMap_some]

/-- A statement on the other table. -/
theorem eq_filterMap_append {α : Type*} {g : α → Option α} (h : ∀ a, g a = some a)
    (l : List α) : l = l.filterMap g ++ [] := by
  rw [funext h, List.filterMap_some, List.append_nil]

/-- A row-wise deletion is a `filter`. -/
theorem filter_eq_filterMap_append {α : Type*} {p : α → Bool} {g : α → Option α}
    (h : ∀ a, g a = if p a then some a else none) (l : List α) :
    l.filter p = l.filterMap g ++ [] := by
  rw [← List.filterMap_eq_filter, List.append_nil]
  congr 1
  funext a
  rw [h a, Option.guard]

/-- **A statement acts row by row.** -/
theorem run_analyses (now : Time) (db : Database) (s : Statement) :
    (s.run now db).analyses = db.analyses.filterMap (s.onRow now db) ++ s.inserted now db := by
  cases s with
  | create id userId songId status mode => exact append_eq_filterMap_append (fun _ => rfl) _ _
  | delete id => exact filter_eq_filterMap_append (fun a => by simp [Statement.onRow]) _
  | deleteSong id => exact filter_eq_filterMap_append (fun a => by simp [Statement.onRow]) _
  | wakeWaitingForReference songId =>
    simp only [Statement.run, Database.wakeWaitingForReference, Database.recalculatePositions,
      Database.updateAnalyses, List.map_map]
    exact map_eq_filterMap_append
      (fun a => by simp [Statement.onRow, Database.updateAnalyses]) _
  | createSong | retryPrep | markPrepProcessing | savePrepStageProgress | markPrepReady
  | markPrepFailed => exact eq_filterMap_append (fun _ => rfl) _
  | _ => exact map_eq_filterMap_append (fun a => by simp [Statement.onRow]) _

/-- A row after a statement is a row before it, changed, or the row inserted. -/
theorem mem_run {now : Time} {db : Database} {s : Statement} {b : Analysis} :
    b ∈ (s.run now db).analyses ↔
      (∃ a ∈ db.analyses, s.onRow now db a = some b) ∨ b ∈ s.inserted now db := by
  rw [run_analyses, List.mem_append, List.mem_filterMap]

/-- No statement changes the columns that say whose analysis of what a row is. -/
theorem onRow_identity {now : Time} {db : Database} {s : Statement} {a b : Analysis}
    (h : s.onRow now db a = some b) :
    b.id = a.id ∧ b.userId = a.userId ∧ b.songId = a.songId ∧ b.mode = a.mode := by
  cases s <;>
    simp only [Statement.onRow, Option.some.injEq, Option.ite_none_left_eq_some] at h <;>
    first
    | (obtain ⟨-, rfl⟩ := h; exact ⟨rfl, rfl, rfl, rfl⟩)
    | (subst h; split_ifs <;> exact ⟨rfl, rfl, rfl, rfl⟩)

theorem onRow_id {now : Time} {db : Database} {s : Statement} {a b : Analysis}
    (h : s.onRow now db a = some b) : b.id = a.id := (onRow_identity h).1

/-- The statements that change the status of a row, with what each leaves it in. -/
inductive Moves : Statement → Analysis → AnalysisStatus → Prop
  | cancel {id userId a} (h : a.cancelable id userId) : Moves (.cancel id userId) a .canceled
  | retry {id userId a} (h : a.retryable id userId) : Moves (.retry id userId) a .queued
  | retryToWaitingForReference {id userId a} (h : a.retryable id userId) :
      Moves (.retryToWaitingForReference id userId) a .waitingForReference
  | markProcessing {id firstStage stageIndex totalStages a} (h : a.id = id) :
      Moves (.markProcessing id firstStage stageIndex totalStages) a .processing
  | markDone {id a} (h : a.id = id) : Moves (.markDone id) a .done
  | markFailed {id errorCode a} (h : a.id = id) : Moves (.markFailed id errorCode) a .failed
  | wake {songId a} (h : a.waitingFor songId) : Moves (.wakeWaitingForReference songId) a .queued
  | failWaiting {songId errorCode a} (h : a.waitingFor songId) :
      Moves (.failWaitingForReference songId errorCode) a .failed

/-- A row that is written under a guard. -/
theorem ite_status {s : Statement} {a b : Analysis} {c : Prop} [Decidable c]
    (hb : c → Moves s a b.status) :
    (if c then b else a).status = a.status ∨ Moves s a (if c then b else a).status := by
  split_ifs with hguard
  · exact Or.inr (hb hguard)
  · exact Or.inl rfl

/-- **How a status changes**: not at all, or by one of the guarded moves. -/
theorem onRow_status {now : Time} {db : Database} {s : Statement} {a b : Analysis}
    (h : s.onRow now db a = some b) : b.status = a.status ∨ Moves s a b.status := by
  cases s <;>
    simp only [Statement.onRow, Option.some.injEq, Option.ite_none_left_eq_some] at h
  case create | createSong | retryPrep | markPrepProcessing | savePrepStageProgress
      | markPrepReady | markPrepFailed => exact Or.inl (h ▸ rfl)
  case delete | deleteSong => exact Or.inl (h.2 ▸ rfl)
  case setQueueStreamId | recalculatePositions | saveStageProgress =>
    subst h
    split_ifs <;> exact Or.inl rfl
  case cancel =>
    subst h
    exact ite_status .cancel
  case retry =>
    subst h
    exact ite_status .retry
  case retryToWaitingForReference =>
    subst h
    exact ite_status .retryToWaitingForReference
  case markProcessing =>
    subst h
    exact ite_status .markProcessing
  case markDone =>
    subst h
    exact ite_status .markDone
  case markFailed =>
    subst h
    exact ite_status .markFailed
  case failWaitingForReference =>
    subst h
    exact ite_status .failWaiting
  case wakeWaitingForReference songId =>
    -- both updates: the row is woken or not, then numbered or not
    have hstatus : b.status = (if a.waitingFor songId then a.woken else a).status := by
      subst h
      split_ifs <;> rfl
    rw [hstatus]
    exact ite_status .wake

/-- The saved stages of a row only grow. -/
theorem onRow_stages {now : Time} {db : Database} {s : Statement} {a b : Analysis}
    (h : s.onRow now db a = some b) : a.stages ⊆ b.stages := by
  cases s <;>
    simp only [Statement.onRow, Option.some.injEq, Option.ite_none_left_eq_some] at h
  case saveStageProgress id stage _ _ _ =>
    subst h
    by_cases hid : a.id = id <;> by_cases hin : stage ∈ a.stages <;>
      simp [Analysis.withProgress, hid, hin]
  all_goals first
    | (obtain ⟨-, rfl⟩ := h; exact List.Subset.refl _)
    | (subst h; split_ifs <;> exact List.Subset.refl _)

/-- A `queue_seq` changes only when a retry draws the next one for a failed row. -/
theorem onRow_queueSeq {now : Time} {db : Database} {s : Statement} {a b : Analysis}
    (h : s.onRow now db a = some b) :
    b.queueSeq = a.queueSeq ∨
      (b.queueSeq = db.nextSeq ∧ ∃ id userId, a.retryable id userId ∧
        (s = .retry id userId ∨ s = .retryToWaitingForReference id userId)) := by
  cases s <;>
    simp only [Statement.onRow, Option.some.injEq, Option.ite_none_left_eq_some] at h
  case retry id userId =>
    subst h
    split_ifs with hp
    · exact Or.inr ⟨rfl, id, userId, hp, Or.inl rfl⟩
    · exact Or.inl rfl
  case retryToWaitingForReference id userId =>
    subst h
    split_ifs with hp
    · exact Or.inr ⟨rfl, id, userId, hp, Or.inr rfl⟩
    · exact Or.inl rfl
  all_goals first
    | (obtain ⟨-, rfl⟩ := h; exact Or.inl rfl)
    | (subst h; split_ifs <;> exact Or.inl rfl)

/-- An analysis has no status but the given one. -/
def Database.OnlyStatus (db : Database) (id : AnalysisId) (status : AnalysisStatus) : Prop :=
  ∀ r ∈ db.analyses, r.id = id → r.status = status

instance (db : Database) (id : AnalysisId) (status : AnalysisStatus) :
    Decidable (db.OnlyStatus id status) :=
  inferInstanceAs (Decidable (∀ r ∈ _, _))

/-! ## Well-formed tables -/

/-- The primary key and the sequence: ids and `queue_seq`s are distinct, and the sequence
is past every one drawn. -/
structure Database.WellFormed (db : Database) : Prop where
  distinct : db.analyses.Pairwise fun a b => a.id ≠ b.id ∧ a.queueSeq ≠ b.queueSeq
  seq_lt : ∀ a ∈ db.analyses, a.queueSeq < db.nextSeq

theorem Database.WellFormed.empty : ({} : Database).WellFormed :=
  ⟨List.Pairwise.nil, by simp⟩

/-- The row of an id is unique. -/
theorem Database.WellFormed.eq_of_id {db : Database} (h : db.WellFormed) {a b : Analysis}
    (ha : a ∈ db.analyses) (hb : b ∈ db.analyses) (hid : a.id = b.id) : a = b := by
  have hnodup : (db.analyses.map Analysis.id).Nodup :=
    List.pairwise_map.mpr (h.distinct.imp And.left)
  exact List.inj_on_of_nodup_map hnodup ha hb hid

/-- The row of a `queue_seq` is unique. -/
theorem Database.WellFormed.eq_of_queueSeq {db : Database} (h : db.WellFormed) {a b : Analysis}
    (ha : a ∈ db.analyses) (hb : b ∈ db.analyses) (hseq : a.queueSeq = b.queueSeq) : a = b := by
  have hnodup : (db.analyses.map Analysis.queueSeq).Nodup :=
    List.pairwise_map.mpr (h.distinct.imp And.right)
  exact List.inj_on_of_nodup_map hnodup ha hb hseq

/-- `get_by_id` finds exactly the row of the id. -/
theorem Database.WellFormed.analysis_eq_some {db : Database} (h : db.WellFormed) {id : AnalysisId}
    {a : Analysis} : db.analysis id = some a ↔ a ∈ db.analyses ∧ a.id = id := by
  constructor
  · intro hfind
    exact ⟨List.mem_of_find?_eq_some hfind, by simpa using List.find?_some hfind⟩
  · rintro ⟨hmem, hid⟩
    cases hfind : db.analysis id with
    | none =>
      have := List.find?_eq_none.mp hfind a hmem
      simp [hid] at this
    | some b =>
      have hb : b.id = id := by simpa using List.find?_some hfind
      rw [h.eq_of_id (List.mem_of_find?_eq_some hfind) hmem (hb.trans hid.symm)]

/-- The sequence never goes back, and steps past what a row is given. -/
theorem nextSeq_le_run (now : Time) (db : Database) (s : Statement) :
    db.nextSeq ≤ (s.run now db).nextSeq := by
  cases s <;>
    simp only [Statement.run, Database.create, Database.retry, Database.retryToWaitingForReference,
      Database.retryAs, Database.delete, Database.deleteSong, Database.createSong] <;>
    first
    | exact Nat.le_refl _
    | exact Nat.le_succ _
    | (split_ifs <;> omega)

theorem nextSeq_retry {now : Time} {db : Database} {s : Statement} {a : Analysis} {id : AnalysisId}
    {userId : UserId} (ha : a ∈ db.analyses) (hp : a.retryable id userId)
    (hs : s = .retry id userId ∨ s = .retryToWaitingForReference id userId) :
    (s.run now db).nextSeq = db.nextSeq + 1 := by
  have hany : db.analyses.any (Analysis.retryable id userId) := List.any_eq_true.mpr ⟨a, ha, hp⟩
  rcases hs with rfl | rfl <;>
    simp only [Statement.run, Database.retry, Database.retryToWaitingForReference,
      Database.retryAs, hany, if_true]

/-- The id a statement inserts a row for. -/
def Statement.newId : Statement → Option AnalysisId
  | .create id .. => some id
  | _ => none

theorem inserted_id {now : Time} {db : Database} {s : Statement} {b : Analysis}
    (h : b ∈ s.inserted now db) :
    s.newId = some b.id ∧ b.queueSeq = db.nextSeq ∧ (s.run now db).nextSeq = db.nextSeq + 1 := by
  cases s <;> simp only [Statement.inserted, List.mem_singleton, List.not_mem_nil] at h
  subst h
  exact ⟨rfl, rfl, rfl⟩

/-- **Statements keep the tables well formed**, as long as a new id is new. -/
theorem Database.WellFormed.run {now : Time} {db : Database} (h : db.WellFormed) (s : Statement)
    (hnew : ∀ a ∈ db.analyses, s.newId ≠ some a.id) : (s.run now db).WellFormed := by
  constructor
  · rw [run_analyses, List.pairwise_append]
    refine ⟨?_, ?_, ?_⟩
    · rw [List.pairwise_filterMap]
      refine h.distinct.imp_of_mem fun {a b} ha hb hab a' ha' b' hb' => ⟨?_, ?_⟩
      · rw [onRow_id ha', onRow_id hb']
        exact hab.1
      · have hlta := h.seq_lt a ha
        have hltb := h.seq_lt b hb
        rcases onRow_queueSeq ha' with heqa | ⟨heqa, i, u, hpa, hs⟩ <;>
          rcases onRow_queueSeq hb' with heqb | ⟨heqb, j, v, hpb, hs'⟩
        · rw [heqa, heqb]
          exact hab.2
        · omega
        · omega
        · -- both rows were retried by one statement, so they share an id
          rw [Analysis.retryable_iff] at hpa hpb
          have hij : i = j := by
            rcases hs with rfl | rfl <;> rcases hs' with hs' | hs' <;> cases hs' <;> rfl
          exact absurd (hpa.1.trans (hij.trans hpb.1.symm)) hab.1
    · cases s <;> simp [Statement.inserted]
    · intro a' ha' b hb
      obtain ⟨a, ha, ha'⟩ := List.mem_filterMap.mp ha'
      obtain ⟨hid, hseq, -⟩ := inserted_id hb
      refine ⟨?_, ?_⟩
      · rw [onRow_id ha']
        exact fun heq => hnew a ha (heq ▸ hid)
      · have hlta := h.seq_lt a ha
        rcases onRow_queueSeq ha' with heqa | ⟨-, i, u, -, hs⟩
        · omega
        · rcases hs with rfl | rfl <;> cases hid
  · intro b hb
    have hle := nextSeq_le_run now db s
    rcases mem_run.mp hb with ⟨a, ha, hab⟩ | hins
    · have hlta := h.seq_lt a ha
      rcases onRow_queueSeq hab with heq | ⟨heq, i, u, hp, hs⟩
      · omega
      · rw [heq, nextSeq_retry ha hp hs]
        exact Nat.lt_succ_self _
    · obtain ⟨-, heq, hnext⟩ := inserted_id hins
      omega

/-! ## Rows of `songs` -/

/-- What a statement makes of a song. -/
def Statement.onSong (now : Time) : Statement → Song → Option Song
  | .deleteSong id, s => if s.id = id then none else some s
  | .retryPrep id, s => some (if s.id = id ∧ s.prepStatus = .failed then s.restarted else s)
  | .markPrepProcessing id firstStage, s =>
      some (if s.id = id then s.processing firstStage else s)
  | .savePrepStageProgress id stage nextStage, s =>
      some (if s.id = id then s.withProgress stage nextStage else s)
  | .markPrepReady id, s => some (if s.id = id then s.prepared now else s)
  | .markPrepFailed id errorCode, s => some (if s.id = id then s.failedWith errorCode else s)
  | _, s => some s

/-- The song a statement inserts. -/
def Statement.insertedSongs : Statement → List Song
  | .createSong id => [{ id }]
  | _ => []

/-- **A statement acts song by song.** -/
theorem run_songs (now : Time) (db : Database) (s : Statement) :
    (s.run now db).songs = db.songs.filterMap (s.onSong now) ++ s.insertedSongs := by
  cases s with
  | createSong id => exact append_eq_filterMap_append (fun _ => rfl) _ _
  | deleteSong id => exact filter_eq_filterMap_append (fun a => by simp [Statement.onSong]) _
  | retryPrep | markPrepProcessing | savePrepStageProgress | markPrepReady | markPrepFailed =>
    exact map_eq_filterMap_append (fun a => by simp [Statement.onSong]) _
  | _ => exact eq_filterMap_append (fun _ => rfl) _

theorem mem_run_songs {now : Time} {db : Database} {s : Statement} {t : Song} :
    t ∈ (s.run now db).songs ↔
      (∃ r ∈ db.songs, s.onSong now r = some t) ∨ t ∈ s.insertedSongs := by
  rw [run_songs, List.mem_append, List.mem_filterMap]

theorem onSong_id {now : Time} {s : Statement} {r t : Song} (h : s.onSong now r = some t) :
    t.id = r.id := by
  cases s <;>
    simp only [Statement.onSong, Option.some.injEq, Option.ite_none_left_eq_some] at h <;>
    first
    | (obtain ⟨-, rfl⟩ := h; rfl)
    | (subst h; split_ifs <;> rfl)

/-- Statements keep song ids distinct, as long as a new id is new. -/
theorem distinct_run_songs {now : Time} {db : Database} (s : Statement)
    (h : db.songs.Pairwise fun r t => r.id ≠ t.id)
    (hnew : ∀ t ∈ s.insertedSongs, ∀ r ∈ db.songs, r.id ≠ t.id) :
    (s.run now db).songs.Pairwise fun r t => r.id ≠ t.id := by
  rw [run_songs, List.pairwise_append]
  refine ⟨?_, ?_, ?_⟩
  · rw [List.pairwise_filterMap]
    refine h.imp fun {r t} hne r' hr' t' ht' => ?_
    rw [onSong_id hr', onSong_id ht']
    exact hne
  · cases s <;> simp [Statement.insertedSongs]
  · intro r' hr' t ht
    obtain ⟨r, hr, hr'⟩ := List.mem_filterMap.mp hr'
    rw [onSong_id hr']
    exact hnew t ht r hr

/-- The saved stages of a song only grow. -/
theorem onSong_stages {now : Time} {s : Statement} {r t : Song} (h : s.onSong now r = some t) :
    r.prepStages ⊆ t.prepStages := by
  cases s <;>
    simp only [Statement.onSong, Option.some.injEq, Option.ite_none_left_eq_some] at h
  case savePrepStageProgress id stage _ =>
    subst h
    by_cases hid : r.id = id <;> by_cases hin : stage ∈ r.prepStages <;>
      simp [Song.withProgress, hid, hin]
  all_goals first
    | (obtain ⟨-, rfl⟩ := h; exact List.Subset.refl _)
    | (subst h; split_ifs <;> exact List.Subset.refl _)

/-- The statements that change the preparation status of a song. -/
inductive SongMoves : Statement → Song → SongPrepStatus → Prop
  | retryPrep {id s} (h : s.id = id ∧ s.prepStatus = .failed) : SongMoves (.retryPrep id) s .pending
  | markPrepProcessing {id firstStage s} (h : s.id = id) :
      SongMoves (.markPrepProcessing id firstStage) s .processing
  | markPrepReady {id s} (h : s.id = id) : SongMoves (.markPrepReady id) s .ready
  | markPrepFailed {id errorCode s} (h : s.id = id) : SongMoves (.markPrepFailed id errorCode) s .failed

/-- **How a preparation status changes.** -/
theorem onSong_status {now : Time} {s : Statement} {r t : Song} (h : s.onSong now r = some t) :
    t.prepStatus = r.prepStatus ∨ SongMoves s r t.prepStatus := by
  cases s <;>
    simp only [Statement.onSong, Option.some.injEq, Option.ite_none_left_eq_some] at h
  case deleteSong => exact Or.inl (h.2 ▸ rfl)
  case savePrepStageProgress =>
    subst h
    split_ifs <;> exact Or.inl rfl
  case retryPrep =>
    subst h
    split_ifs with hp
    · exact Or.inr (.retryPrep hp)
    · exact Or.inl rfl
  case markPrepProcessing =>
    subst h
    split_ifs with hp
    · exact Or.inr (.markPrepProcessing hp)
    · exact Or.inl rfl
  case markPrepReady =>
    subst h
    split_ifs with hp
    · exact Or.inr (.markPrepReady hp)
    · exact Or.inl rfl
  case markPrepFailed =>
    subst h
    split_ifs with hp
    · exact Or.inr (.markPrepFailed hp)
    · exact Or.inl rfl
  all_goals exact Or.inl (h ▸ rfl)

end VocalCoach
