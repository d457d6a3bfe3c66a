/-
# Queue positions over completed operations

The operations of both programs that move an analysis into or out of the queue, each
run to its end: which statements it commits, in order.  `PositionsExact` is what users
watch: the queued rows hold `1..n` in the order of `queue_seq`, every other row `NULL`.

Every operation that ends in `RecalculatePositions` restores it.  `mark_processing`,
`mark_done`, `mark_failed` and a permanent failure take a row out of the queue without
renumbering, so they keep it exactly when no queued row stands behind the row they take
(`queuePositions_exact_iff`).
-/
import VocalCoach.Machine
import VocalCoach.Ranking
import VocalCoach.Tables
import Mathlib.Data.List.Sort

namespace VocalCoach

open Machine

/-! ## The queue in order -/

namespace Database

/-- The queued rows in the order of `queue_seq`. -/
def queue (db : Database) : List Analysis :=
  (db.analyses.filter fun a => a.status = .queued).insertionSort fun a b =>
    a.queueSeq ≤ b.queueSeq

/-- Queued rows hold the positions `1..n` in the order of `queue_seq`, every other row
holds none. -/
def PositionsExact (db : Database) : Prop :=
  db.queue.map Analysis.queuePosition = (List.range' 1 db.queue.length).map some ∧
    ∀ a ∈ db.analyses, a.status ≠ .queued → a.queuePosition = none

instance (db : Database) : Decidable db.PositionsExact := inferInstanceAs (Decidable (_ ∧ _))

/-- No row outside the queue holds a position. -/
def NullOutside (db : Database) : Prop :=
  ∀ a ∈ db.analyses, a.status ≠ .queued → a.queuePosition = none

theorem mem_queue {db : Database} {a : Analysis} :
    a ∈ db.queue ↔ a ∈ db.analyses ∧ a.status = .queued := by
  simp [queue, List.mem_insertionSort]

/-- `ROW_NUMBER()` is the rank in the queue. -/
theorem rowNumber_eq_rank (db : Database) (a : Analysis) :
    db.rowNumber a = Ranking.rank Analysis.queueSeq db.queue a + 1 := by
  rw [rowNumber, queue, Ranking.rank_perm _ (List.perm_insertionSort _ _), Ranking.rank,
    List.countP_filter]
  congr 2
  funext b
  rw [Bool.decide_and, Bool.and_comm]

theorem WellFormed.queue_sorted {db : Database} (h : db.WellFormed) :
    db.queue.Pairwise fun a b => a.queueSeq < b.queueSeq := by
  have hle : db.queue.Pairwise fun a b => a.queueSeq ≤ b.queueSeq :=
    List.pairwise_insertionSort _ _
  have hne : db.queue.Pairwise fun a b => a.queueSeq ≠ b.queueSeq := by
    rw [queue, (List.perm_insertionSort _ _).pairwise_iff fun {_ _} => Ne.symm]
    exact (h.distinct.imp And.right).filter _
  exact hle.imp₂ (fun a b hle hne => lt_of_le_of_ne hle hne) hne

/-- **Exact positions, row by row**: a queued row holds its row number. -/
theorem WellFormed.positionsExact_iff {db : Database} (h : db.WellFormed) :
    db.PositionsExact ↔
      (∀ a ∈ db.analyses, a.status = .queued → a.queuePosition = some (db.rowNumber a)) ∧
        db.NullOutside := by
  rw [PositionsExact, Ranking.map_eq_range'_iff Analysis.queueSeq h.queue_sorted]
  refine and_congr_left fun _ => ?_
  simp only [mem_queue, and_imp, rowNumber_eq_rank, Nat.add_zero]

end Database

/-! ## Which statements leave the numbering alone -/

/-- A statement that keeps every row, its place in the queue, and puts no row into it. -/
structure KeepsQueue (now : Time) (db : Database) (s : Statement) : Prop where
  row : ∀ a ∈ db.analyses, ∃ b, s.onRow now db a = some b ∧
    (b.status = .queued ↔ a.status = .queued) ∧ (a.status = .queued → b.queueSeq = a.queueSeq)
  inserted : ∀ b ∈ s.inserted now db, b.status ≠ .queued

theorem KeepsQueue.rowNumber_eq {now : Time} {db : Database} {s : Statement}
    (h : KeepsQueue now db s) (b : Analysis) : (s.run now db).rowNumber b = db.rowNumber b := by
  have hins : (s.inserted now db).countP
      (fun c => c.status = .queued ∧ c.queueSeq < b.queueSeq) = 0 := by
    rw [List.countP_eq_zero]
    intro c hc
    simp [h.inserted c hc]
  rw [Database.rowNumber, Database.rowNumber, run_analyses, List.countP_append, hins,
    Nat.add_zero, List.countP_filterMap]
  congr 1
  refine List.countP_congr fun a ha => ?_
  obtain ⟨c, hc, hstatus, hseq⟩ := h.row a ha
  by_cases hq : a.status = .queued
  · simp [hc, hq, hstatus, hseq hq]
  · simp [hc, hq, hstatus]

/-- Queued rows hold their row numbers, the other rows none. -/
def RowsExact (db : Database) : Prop :=
  (∀ a ∈ db.analyses, a.status = .queued → a.queuePosition = some (db.rowNumber a)) ∧
    db.NullOutside

/-- A statement that keeps the queue and every position keeps exactness. -/
theorem RowsExact.keeps {now : Time} {db : Database} {s : Statement} (hexact : RowsExact db)
    (h : KeepsQueue now db s)
    (hposition : ∀ a ∈ db.analyses, ∀ b, s.onRow now db a = some b →
      b.queuePosition = a.queuePosition ∨ (b.queuePosition = none ∧ b.status ≠ .queued))
    (hinserted : ∀ b ∈ s.inserted now db, b.queuePosition = none) :
    RowsExact (s.run now db) := by
  constructor
  · intro b hb hq
    rw [h.rowNumber_eq]
    rcases mem_run.mp hb with ⟨a, ha, hab⟩ | hins
    · obtain ⟨c, hc, hstatus, hseq⟩ := h.row a ha
      obtain rfl : c = b := Option.some.inj (hc.symm.trans hab)
      rcases hposition a ha c hab with hpos | ⟨-, hnq⟩
      · rw [hpos, hexact.1 a ha (hstatus.mp hq)]
        simp only [Database.rowNumber, hseq (hstatus.mp hq)]
      · exact absurd hq hnq
    · exact absurd hq (h.inserted b hins)
  · intro b hb hq
    rcases mem_run.mp hb with ⟨a, ha, hab⟩ | hins
    · obtain ⟨c, hc, hstatus, -⟩ := h.row a ha
      obtain rfl : c = b := Option.some.inj (hc.symm.trans hab)
      rcases hposition a ha c hab with hpos | ⟨hpos, -⟩
      · rw [hpos]
        exact hexact.2 a ha fun haq => hq (hstatus.mpr haq)
      · exact hpos
    · exact hinserted b hins

/-- **`RecalculatePositions` makes the numbering exact.** -/
theorem rowsExact_recalculatePositions {db : Database} (h : db.NullOutside) :
    RowsExact db.recalculatePositions := by
  have hkeeps : KeepsQueue 0 db .recalculatePositions := by
    refine ⟨fun a _ => ⟨_, rfl, ?_, ?_⟩, by simp [Statement.inserted]⟩
    · split_ifs <;> rfl
    · intro hq
      simp [hq, Analysis.atPosition]
  have hrun : db.recalculatePositions = Statement.run 0 db .recalculatePositions := rfl
  rw [hrun]
  constructor
  · intro b hb hq
    rw [hkeeps.rowNumber_eq]
    obtain ⟨a, ha, hab⟩ | hins := mem_run.mp hb
    · simp only [Statement.onRow, Option.some.injEq] at hab
      subst hab
      by_cases haq : a.status = .queued
      · simp only [haq, if_true]
        rfl
      · simp only [haq, if_false] at hq
    · simp [Statement.inserted] at hins
  · intro b hb hq
    obtain ⟨a, ha, hab⟩ | hins := mem_run.mp hb
    · simp only [Statement.onRow, Option.some.injEq] at hab
      subst hab
      by_cases haq : a.status = .queued
      · simp [haq, Analysis.atPosition] at hq
      · simp only [haq, if_false]
        exact h a ha haq
    · simp [Statement.inserted] at hins

/-- **No statement writes a position outside the queue.** -/
theorem nullOutside_run {now : Time} {db : Database} (h : db.NullOutside) (s : Statement) :
    (s.run now db).NullOutside := by
  intro b hb hq
  rcases mem_run.mp hb with ⟨a, ha, hab⟩ | hins
  · have hkeep := h a ha
    cases s <;>
      simp only [Statement.onRow, Option.some.injEq, Option.ite_none_left_eq_some] at hab
    case create | createSong | retryPrep | markPrepProcessing | savePrepStageProgress
        | markPrepReady | markPrepFailed => exact hab ▸ hkeep (hab ▸ hq)
    case delete | deleteSong => exact hab.2 ▸ hkeep (hab.2 ▸ hq)
    case cancel | retry | retryToWaitingForReference | markProcessing | markDone | markFailed =>
      subst hab
      split_ifs at hq ⊢ with hp
      · rfl
      · exact hkeep hq
    case setQueueStreamId | saveStageProgress =>
      subst hab
      split_ifs at hq ⊢ with hp
      · exact hkeep hq
      · exact hkeep hq
    case recalculatePositions =>
      subst hab
      split_ifs at hq ⊢ with hp
      · exact absurd hp hq
      · exact hkeep hq
    case failWaitingForReference =>
      subst hab
      split_ifs at hq ⊢ with hp
      · exact hkeep (by simp [(Analysis.waitingFor_iff.mp hp).2])
      · exact hkeep hq
    case wakeWaitingForReference =>
      -- a woken row is queued; the others are numbered only when they are
      subst hab
      split_ifs at hq ⊢ with hwoken hqueued hqueued
      · exact absurd hqueued hq
      · exact absurd rfl hqueued
      · exact absurd hqueued hq
      · exact hkeep hq
  · cases s <;> simp only [Statement.inserted, List.mem_singleton, List.not_mem_nil] at hins
    subst hins
    rfl

/-! ## Leaving the queue -/

/-- Taking the row of an id out of the queue, as `mark_processing`, `mark_done` and
`mark_failed` do, leaves no gap: no queued row stands behind it. -/
def LeavesNoGap (db : Database) (id : AnalysisId) : Prop :=
  ∀ a ∈ db.analyses, a.id = id → a.status = .queued →
    ∀ b ∈ db.analyses, b.id ≠ id → b.status = .queued → ¬ a.queueSeq < b.queueSeq

instance (db : Database) (id : AnalysisId) : Decidable (LeavesNoGap db id) :=
  inferInstanceAs (Decidable (∀ a ∈ _, _))

section Leaving

variable {db : Database} {id : AnalysisId} {f : Analysis → Analysis}

theorem mem_updateAnalyses {p : Analysis → Bool} {b : Analysis} :
    b ∈ (db.updateAnalyses p f).analyses ↔ ∃ a ∈ db.analyses, (if p a then f a else a) = b := by
  simp [Database.updateAnalyses]

/-- The rows of the id no longer count. -/
theorem rowNumber_leave (db : Database) (id : AnalysisId) (hf : ∀ a, (f a).status ≠ .queued)
    (b : Analysis) :
    (db.updateAnalyses (fun a => a.id = id) f).rowNumber b +
        db.analyses.countP (fun a => (a.status = .queued ∧ a.queueSeq < b.queueSeq) ∧ a.id = id)
      = db.rowNumber b := by
  have hsplit := List.countP_eq_countP_filter_add db.analyses
    (fun a => decide (a.status = .queued ∧ a.queueSeq < b.queueSeq)) fun a => decide (a.id = id)
  rw [List.countP_filter, List.countP_filter] at hsplit
  have hleft : (db.updateAnalyses (fun a => a.id = id) f).analyses.countP
        (fun a => a.status = .queued ∧ a.queueSeq < b.queueSeq)
      = db.analyses.countP
        (fun a => decide (a.status = .queued ∧ a.queueSeq < b.queueSeq) && !decide (a.id = id)) := by
    rw [Database.updateAnalyses, List.countP_map]
    congr 1
    funext a
    by_cases h : a.id = id <;> simp [h, hf]
  rw [Database.rowNumber, Database.rowNumber, hleft, hsplit]
  simp only [Bool.decide_and]
  omega

/-- **When a row may leave the queue.**  From exact positions, taking the row of an id
out of the queue keeps them exact if and only if no queued row stands behind it. -/
theorem rowsExact_leave_iff (hexact : RowsExact db) (hf : ∀ a, (f a).status ≠ .queued)
    (hnull : ∀ a, (f a).queuePosition = none) :
    RowsExact (db.updateAnalyses (fun a => a.id = id) f) ↔ LeavesNoGap db id := by
  have hcount : ∀ b : Analysis,
      db.analyses.countP (fun a => (a.status = .queued ∧ a.queueSeq < b.queueSeq) ∧ a.id = id) = 0 ↔
        ∀ a ∈ db.analyses, a.id = id → a.status = .queued → ¬ a.queueSeq < b.queueSeq := by
    intro b
    rw [List.countP_eq_zero]
    refine forall₂_congr fun a _ => ?_
    simp only [decide_eq_true_eq]
    tauto
  constructor
  · -- a row that was behind the one that leaves has its old number, one too many
    rintro ⟨hqueued, -⟩ a ha hid haq b hb hbid hbq
    have hmem : b ∈ (db.updateAnalyses (fun a => a.id = id) f).analyses :=
      mem_updateAnalyses.mpr ⟨b, hb, by simp [hbid]⟩
    have hnew := hqueued b hmem hbq
    rw [hexact.1 b hb hbq, Option.some.injEq] at hnew
    have hsum := rowNumber_leave db id hf b
    exact (hcount b).mp (by omega) a ha hid haq
  · intro hgap
    constructor
    · intro b hb hbq
      obtain ⟨a, ha, hab⟩ := mem_updateAnalyses.mp hb
      by_cases hid : a.id = id
      · simp only [hid, decide_true, if_true] at hab
        exact absurd (hab ▸ hbq) (hf a)
      · simp only [hid, decide_false, Bool.false_eq_true, if_false] at hab
        subst hab
        have hzero := (hcount a).mpr fun c hc hcid hcq => hgap c hc hcid hcq a ha hid hbq
        have hsum := rowNumber_leave db id hf a
        rw [hexact.1 a ha hbq, Option.some.injEq]
        omega
    · intro b hb hbq
      obtain ⟨a, ha, hab⟩ := mem_updateAnalyses.mp hb
      by_cases hid : a.id = id
      · simp only [hid, decide_true, if_true] at hab
        exact hab ▸ hnull a
      · simp only [hid, decide_false, Bool.false_eq_true, if_false] at hab
        subst hab
        exact hexact.2 a ha hbq

end Leaving

/-! ## Completed operations -/

/-- An operation of either program, run to its end, with the way it ended. -/
inductive Operation
  /-- `Enqueue` of a song that is ready, admitted as the stream entry `entry`. -/
  | enqueue (id : AnalysisId) (userId : UserId) (songId : SongId) (mode : AnalysisMode)
      (entry : EntryId)
  /-- `Enqueue` of a song that is not ready yet. -/
  | enqueueWaiting (id : AnalysisId) (userId : UserId) (songId : SongId) (mode : AnalysisMode)
  /-- `Enqueue` that finds the queue full at admission and rolls its row back. -/
  | enqueueQueueFull (id : AnalysisId) (userId : UserId) (songId : SongId) (mode : AnalysisMode)
  | cancel (id : AnalysisId) (userId : UserId)
  | retry (id : AnalysisId) (userId : UserId) (entry : EntryId)
  | retryToWaitingForReference (id : AnalysisId) (userId : UserId)
  | wakeWaitingForReference (songId : SongId)
  | failWaitingForReference (songId : SongId) (errorCode : String)
  | markProcessing (id : AnalysisId) (firstStage : String) (stageIndex totalStages : ℕ)
  | markDone (id : AnalysisId)
  | markFailed (id : AnalysisId) (errorCode : String)
  | markPermanentlyFailed (id : AnalysisId)
  deriving DecidableEq, Repr

namespace Operation

/-- The statements an operation commits, in order.  `Cancel` and `Retry` stop at an
`UPDATE` that matches no row. -/
def statements (db : Database) : Operation → List Statement
  | enqueue id userId songId mode entry =>
      [.create id userId songId .queued mode, .setQueueStreamId id entry, .recalculatePositions]
  | enqueueWaiting id userId songId mode =>
      [.create id userId songId .waitingForReference mode]
  | enqueueQueueFull id userId songId mode =>
      [.create id userId songId .queued mode, .delete id]
  | cancel id userId =>
      if db.analyses.any (Analysis.cancelable id userId) then
        [.cancel id userId, .recalculatePositions]
      else [.cancel id userId]
  | retry id userId entry =>
      if db.analyses.any (Analysis.retryable id userId) then
        [.retry id userId, .setQueueStreamId id entry, .recalculatePositions]
      else [.retry id userId]
  | retryToWaitingForReference id userId => [.retryToWaitingForReference id userId]
  | wakeWaitingForReference songId => [.wakeWaitingForReference songId]
  | failWaitingForReference songId errorCode => [.failWaitingForReference songId errorCode]
  | markProcessing id firstStage stageIndex totalStages =>
      [.markProcessing id firstStage stageIndex totalStages]
  | markDone id => [.markDone id]
  | markFailed id errorCode => [.markFailed id errorCode]
  | markPermanentlyFailed id => [.markFailed id "INTERNAL"]

/-- The id a new row gets, if the operation makes one. -/
def newId : Operation → Option AnalysisId
  | enqueue id .. | enqueueWaiting id .. | enqueueQueueFull id .. => some id
  | _ => none

/-- The row an operation takes out of the queue without renumbering it. -/
def leaves : Operation → Option AnalysisId
  | markProcessing id .. | markDone id | markFailed id _ | markPermanentlyFailed id => some id
  | _ => none

end Operation

/-- Statements committed one after the other. -/
def runAll (now : Time) (db : Database) (statements : List Statement) : Database :=
  statements.foldl (fun db s => s.run now db) db

/-- One completed operation at a time; a new row needs an id that is not in use. -/
def operationStep (db : Database) (event : Time × Operation) : Option Database :=
  if ∃ a ∈ db.analyses, event.2.newId = some a.id then none
  else some (runAll event.1 db (event.2.statements db))

/-! ## What each operation does to the numbering -/

theorem wellFormed_runAll (now : Time) {db : Database} (h : db.WellFormed)
    (statements : List Statement) (hnew : ∀ s ∈ statements, s.newId = none) :
    (runAll now db statements).WellFormed := by
  induction statements generalizing db with
  | nil => exact h
  | cons s statements ih =>
    have hs := hnew s (List.mem_cons_self)
    exact ih (h.run s fun _ _ heq => by rw [hs] at heq; cases heq)
      fun t ht => hnew t (List.mem_cons_of_mem s ht)

/-- Operations keep the tables well formed. -/
theorem wellFormed_operationStep {db db' : Database} {event : Time × Operation} (h : db.WellFormed)
    (hstep : operationStep db event = some db') : db'.WellFormed := by
  obtain ⟨now, op⟩ := event
  rw [operationStep, Option.ite_none_left_eq_some, not_exists] at hstep
  obtain ⟨hfresh, hrun⟩ := hstep
  cases hrun
  have hnew : ∀ a ∈ db.analyses, op.newId ≠ some a.id := fun a ha heq => hfresh a ⟨ha, heq⟩
  cases op with
  | enqueue id userId songId mode entry =>
    exact wellFormed_runAll now (h.run (.create id userId songId .queued mode) hnew)
      [.setQueueStreamId id entry, .recalculatePositions] (by simp [Statement.newId])
  | enqueueWaiting id userId songId mode =>
    exact h.run (.create id userId songId .waitingForReference mode) hnew
  | enqueueQueueFull id userId songId mode =>
    exact wellFormed_runAll now (h.run (.create id userId songId .queued mode) hnew) [.delete id]
      (by simp [Statement.newId])
  | cancel | retry =>
    simp only [Operation.statements]
    split_ifs <;> exact wellFormed_runAll now h _ (by simp [Statement.newId])
  | _ => exact wellFormed_runAll now h _ (by simp [Operation.statements, Statement.newId])

/-- Exactness speaks of the rows only. -/
theorem RowsExact.congr {db db' : Database} (h : RowsExact db) (heq : db'.analyses = db.analyses) :
    RowsExact db' := by
  unfold RowsExact Database.NullOutside Database.rowNumber at *
  rwa [heq]

/-- An operation that ends in `RecalculatePositions` leaves the numbering exact. -/
theorem rowsExact_recalculate_last {now : Time} {db : Database} (h : db.NullOutside)
    (statements : List Statement) :
    RowsExact (runAll now db (statements ++ [.recalculatePositions])) := by
  rw [runAll, List.foldl_append]
  refine rowsExact_recalculatePositions ?_
  induction statements generalizing db with
  | nil => exact h
  | cons s statements ih => exact ih (nullOutside_run h s)

/-- A statement that matches no row changes none. -/
theorem rowsExact_unmatched (now : Time) {db : Database} (s : Statement) (h : RowsExact db)
    (hins : s.inserted now db = []) (hrow : ∀ a ∈ db.analyses, s.onRow now db a = some a) :
    RowsExact (s.run now db) := by
  apply h.congr
  rw [run_analyses, hins, List.append_nil, List.filterMap_congr hrow, List.filterMap_some]

theorem rowsExact_cancel {now : Time} {db : Database} (h : RowsExact db) (id : AnalysisId)
    (userId : UserId) :
    RowsExact (runAll now db ((Operation.cancel id userId).statements db)) := by
  simp only [Operation.statements]
  split_ifs with hany
  · exact rowsExact_recalculate_last h.2 [.cancel id userId]
  · refine rowsExact_unmatched now (.cancel id userId) h rfl fun a ha => ?_
    have hnot : a.cancelable id userId = false := by
      simpa using fun hp => hany (List.any_eq_true.mpr ⟨a, ha, hp⟩)
    simp [Statement.onRow, hnot]

theorem rowsExact_retry {now : Time} {db : Database} (h : RowsExact db) (id : AnalysisId)
    (userId : UserId) (entry : EntryId) :
    RowsExact (runAll now db ((Operation.retry id userId entry).statements db)) := by
  simp only [Operation.statements]
  split_ifs with hany
  · exact rowsExact_recalculate_last h.2 [.retry id userId, .setQueueStreamId id entry]
  · refine rowsExact_unmatched now (.retry id userId) h rfl fun a ha => ?_
    have hnot : a.retryable id userId = false := by
      simpa using fun hp => hany (List.any_eq_true.mpr ⟨a, ha, hp⟩)
    simp [Statement.onRow, hnot]

/-- A rolled back `Enqueue` leaves the rows it found. -/
theorem rowsExact_queueFull {now : Time} {db : Database} (h : RowsExact db) (id : AnalysisId)
    (userId : UserId) (songId : SongId) (mode : AnalysisMode)
    (hfresh : ∀ a ∈ db.analyses, a.id ≠ id) :
    RowsExact (runAll now db ((Operation.enqueueQueueFull id userId songId mode).statements db)) := by
  apply h.congr
  simp only [Operation.statements, runAll, List.foldl, Statement.run, Database.create,
    Database.delete, List.filter_append]
  have hkeep : db.analyses.filter (fun a => decide (a.id ≠ id)) = db.analyses :=
    List.filter_eq_self.mpr fun a ha => by simp [hfresh a ha]
  rw [hkeep]
  simp

theorem rowsExact_enqueueWaiting {now : Time} {db : Database} (h : RowsExact db) (id : AnalysisId)
    (userId : UserId) (songId : SongId) (mode : AnalysisMode) :
    RowsExact (Statement.run now db (.create id userId songId .waitingForReference mode)) := by
  refine h.keeps ⟨fun a _ => ⟨a, rfl, Iff.rfl, fun _ => rfl⟩, ?_⟩ ?_ ?_
  · simp [Statement.inserted]
  · rintro a - b hab
    cases hab
    exact Or.inl rfl
  · simp [Statement.inserted]

theorem rowsExact_retryToWaiting {now : Time} {db : Database} (h : RowsExact db) (id : AnalysisId)
    (userId : UserId) :
    RowsExact (Statement.run now db (.retryToWaitingForReference id userId)) := by
  have hnq : ∀ a : Analysis, a.retryable id userId → a.status ≠ .queued := by
    intro a hp
    simp [(Analysis.retryable_iff.mp hp).2.2]
  refine h.keeps ⟨fun a _ => ⟨_, rfl, ?_, ?_⟩, by simp [Statement.inserted]⟩ ?_
    (by simp [Statement.inserted])
  · split_ifs with hp
    · exact iff_of_false (by simp [Analysis.retried]) (hnq a hp)
    · exact Iff.rfl
  · intro hq
    split_ifs with hp
    · exact absurd hq (hnq a hp)
    · rfl
  · rintro a - b hab
    cases hab
    split_ifs with hp
    · exact Or.inr ⟨rfl, by simp [Analysis.retried]⟩
    · exact Or.inl rfl

theorem rowsExact_failWaiting {now : Time} {db : Database} (h : RowsExact db) (songId : SongId)
    (errorCode : String) :
    RowsExact (Statement.run now db (.failWaitingForReference songId errorCode)) := by
  have hnq : ∀ a : Analysis, a.waitingFor songId → a.status ≠ .queued := by
    intro a hp
    simp [(Analysis.waitingFor_iff.mp hp).2]
  refine h.keeps ⟨fun a _ => ⟨_, rfl, ?_, ?_⟩, by simp [Statement.inserted]⟩ ?_
    (by simp [Statement.inserted])
  · split_ifs with hp
    · exact iff_of_false (by simp [Analysis.failedWaiting]) (hnq a hp)
    · exact Iff.rfl
  · intro hq
    split_ifs with hp
    · exact absurd hq (hnq a hp)
    · rfl
  · rintro a - b hab
    cases hab
    split_ifs <;> exact Or.inl rfl

/-- The wake renumbers in its own transaction. -/
theorem rowsExact_wake (now : Time) {db : Database} (h : RowsExact db) (songId : SongId) :
    RowsExact (Statement.run now db (.wakeWaitingForReference songId)) := by
  apply rowsExact_recalculatePositions
  intro b hb hq
  obtain ⟨a, ha, hab⟩ := mem_updateAnalyses.mp hb
  split_ifs at hab with hp
  · exact absurd (hab ▸ rfl) hq
  · exact hab ▸ h.2 a ha (hab ▸ hq)

/-- An operation takes no row out of the middle of the queue. -/
def LeavesInOrder (db : Database) (event : Time × Operation) : Prop :=
  ∀ id, event.2.leaves = some id → LeavesNoGap db id

/-- **One operation.**  From exact positions an operation leads to exact positions if and
only if it takes no row out of the middle of the queue. -/
theorem rowsExact_operationStep_iff {db db' : Database} {event : Time × Operation}
    (hexact : RowsExact db) (hstep : operationStep db event = some db') :
    RowsExact db' ↔ LeavesInOrder db event := by
  obtain ⟨now, op⟩ := event
  rw [operationStep, Option.ite_none_left_eq_some, not_exists] at hstep
  obtain ⟨hfresh, hrun⟩ := hstep
  cases hrun
  have hleave : ∀ {id : AnalysisId} {f : Analysis → Analysis},
      (∀ a, (f a).status ≠ .queued) → (∀ a, (f a).queuePosition = none) → op.leaves = some id →
      (RowsExact (db.updateAnalyses (fun a => a.id = id) f) ↔ LeavesInOrder db (now, op)) := by
    intro id f hf hnull hleaves
    rw [rowsExact_leave_iff hexact hf hnull, LeavesInOrder, hleaves]
    simp
  have hstay : op.leaves = none → RowsExact (runAll now db (op.statements db)) →
      (RowsExact (runAll now db (op.statements db)) ↔ LeavesInOrder db (now, op)) :=
    fun hleaves h => iff_of_true h (by intro id hid; rw [hleaves] at hid; cases hid)
  cases op with
  | enqueue id userId songId mode entry =>
    exact hstay rfl (rowsExact_recalculate_last hexact.2
      [.create id userId songId .queued mode, .setQueueStreamId id entry])
  | enqueueWaiting id userId songId mode =>
    exact hstay rfl (rowsExact_enqueueWaiting hexact id userId songId mode)
  | enqueueQueueFull id userId songId mode =>
    refine hstay rfl (rowsExact_queueFull hexact id userId songId mode fun a ha heq => ?_)
    exact hfresh a ⟨ha, congrArg some heq.symm⟩
  | cancel id userId => exact hstay rfl (rowsExact_cancel hexact id userId)
  | retry id userId entry => exact hstay rfl (rowsExact_retry hexact id userId entry)
  | retryToWaitingForReference id userId =>
    exact hstay rfl (rowsExact_retryToWaiting hexact id userId)
  | wakeWaitingForReference songId => exact hstay rfl (rowsExact_wake now hexact songId)
  | failWaitingForReference songId errorCode =>
    exact hstay rfl (rowsExact_failWaiting hexact songId errorCode)
  | markProcessing | markDone | markFailed | markPermanentlyFailed =>
    exact hleave (fun a => by simp [Analysis.processing, Analysis.completed, Analysis.failedWith])
      (fun a => rfl) rfl

/-- **When the positions stay exact.**  Over every run of completed operations from the
empty tables, the positions are exact after each operation if and only if each
`mark_processing`, `mark_done`, `mark_failed` and permanent failure hits a row that is not
queued or is the last of the queue. -/
theorem queuePositions_exact_iff (operations : List (Time × Operation)) :
    Along operationStep Database.PositionsExact {} operations ↔
      Meets operationStep LeavesInOrder {} operations := by
  refine along_iff_meets Database.WellFormed
    (fun db event db' h hstep => wellFormed_operationStep h hstep)
    (fun db event db' h hP hstep => ?_) Database.WellFormed.empty (by decide) operations
  rw [(wellFormed_operationStep h hstep).positionsExact_iff]
  exact rowsExact_operationStep_iff (h.positionsExact_iff.mp hP) hstep

/-- The worker starts the first of two queued analyses: the other one keeps position `2`. -/
theorem positionsExact_fails_after_markProcessing :
    ¬ ∀ operations : List (Time × Operation),
      Along operationStep Database.PositionsExact {} operations := by
  intro h
  have hrun := h [(0, .enqueue 0 0 0 .clean 1), (1, .enqueue 1 1 0 .clean 2),
    (2, .markProcessing 0 "preprocess" 1 12)]
  have hlast : Database.PositionsExact _ := ((hrun.2 _ rfl).2 _ rfl).2 _ rfl
  exact absurd hlast (by decide)

end VocalCoach
