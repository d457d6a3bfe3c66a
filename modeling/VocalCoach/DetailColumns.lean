/-
# Status and detail columns

`error_code`, `completed_at` and `current_stage` say more about the status of a row:
the first is set on a `failed` row, the second on a `done` or `failed` one, the third on
a `processing` one only.  Ten statements write them, each a different subset.

* One statement on one row is `onRow_detailsAgree`: the columns still agree if and only if
  the row was not in a status whose columns the statement forgets (`Statement.clears`).
* Over a run, `save_stage_progress` only ever finds a `processing` row
  (`Progressing.step`), so three statements are left: a retry, which forgets
  `completed_at`, and `mark_processing` and `mark_done` on a row whose outcome is
  recorded already.
* `detailsAgree_along_iff` is the condition for a whole run.
-/
import VocalCoach.Steps

namespace VocalCoach

open Machine

/-! ## One row -/

/-- The detail columns say what the status says. -/
structure Analysis.DetailsAgree (r : Analysis) : Prop where
  errorCode : r.errorCode.isSome ↔ r.status = .failed
  completedAt : r.completedAt.isSome ↔ r.status = .done ∨ r.status = .failed
  currentStage : r.currentStage.isSome → r.status = .processing

theorem Analysis.detailsAgree_iff {r : Analysis} :
    r.DetailsAgree ↔ (r.errorCode.isSome ↔ r.status = .failed) ∧
      (r.completedAt.isSome ↔ r.status = .done ∨ r.status = .failed) ∧
      (r.currentStage.isSome → r.status = .processing) :=
  ⟨fun h => ⟨h.errorCode, h.completedAt, h.currentStage⟩, fun h => ⟨h.1, h.2.1, h.2.2⟩⟩

instance (r : Analysis) : Decidable r.DetailsAgree :=
  decidable_of_iff _ Analysis.detailsAgree_iff.symm

/-- The statement writes every detail column that the new status asks for on this row. -/
def Statement.clears : Statement → Analysis → Prop
  | .retry id userId, r | .retryToWaitingForReference id userId, r => ¬ r.retryable id userId
  | .markProcessing id .., r => r.id = id → r.status ≠ .done ∧ r.status ≠ .failed
  | .saveStageProgress id _ nextStage .., r =>
      r.id = id → nextStage.isSome → r.status = .processing
  | .markDone id, r => r.id = id → r.status ≠ .failed
  | _, _ => True

section

variable {now : Time} {db : Database} {r b : Analysis}

/-- `Retry` and `RetryToWaitingForReference` leave `completed_at` behind. -/
theorem retried_not_detailsAgree (h : r.DetailsAgree) {id : AnalysisId} {userId : UserId}
    (hguard : r.retryable id userId) {status : AnalysisStatus}
    (hopen : status ≠ .done ∧ status ≠ .failed) {seq : ℕ} :
    ¬ (r.retried status seq now).DetailsAgree := by
  intro hagree
  have hfailed := (Analysis.retryable_iff.mp hguard).2.2
  have hset : r.completedAt.isSome := h.completedAt.mpr (Or.inr hfailed)
  rcases hagree.completedAt.mp hset with hdone | hfailed
  · exact hopen.1 hdone
  · exact hopen.2 hfailed

/-- `mark_processing` leaves both columns of an outcome behind. -/
theorem processing_detailsAgree (h : r.DetailsAgree) {firstStage : String} {index total : ℕ} :
    (r.processing firstStage index total now).DetailsAgree ↔
      r.status ≠ .done ∧ r.status ≠ .failed := by
  have herror := h.errorCode
  have hcompleted := h.completedAt
  simp only [Analysis.detailsAgree_iff, Analysis.processing, reduceCtorEq, or_self, iff_false,
    implies_true, and_true, herror, hcompleted]
  tauto

theorem withProgress_detailsAgree (h : r.DetailsAgree) {stage : String}
    {nextStage : Option String} {index : Option ℕ} {total : ℕ} :
    (r.withProgress stage nextStage index total now).DetailsAgree ↔
      (nextStage.isSome → r.status = .processing) := by
  simp only [Analysis.detailsAgree_iff, Analysis.withProgress]
  exact ⟨fun hagree => hagree.2.2, fun hnext => ⟨h.errorCode, h.completedAt, hnext⟩⟩

/-- `mark_done` leaves `error_code` behind. -/
theorem completed_detailsAgree (h : r.DetailsAgree) :
    (r.completed now).DetailsAgree ↔ r.status ≠ .failed := by
  have herror := h.errorCode
  simp [Analysis.detailsAgree_iff, Analysis.completed, herror]

theorem failedWith_detailsAgree (r : Analysis) (errorCode : String) :
    (r.failedWith errorCode now).DetailsAgree := by
  simp [Analysis.detailsAgree_iff, Analysis.failedWith]

/-- A row that is queued or waits has no details. -/
theorem Analysis.DetailsAgree.unset (h : r.DetailsAgree)
    (hopen : r.status = .queued ∨ r.status = .waitingForReference) :
    r.errorCode = none ∧ r.completedAt = none ∧ r.currentStage = none := by
  have herror := h.errorCode
  have hcompleted := h.completedAt
  have hstage := h.currentStage
  rcases hopen with hopen | hopen <;> simp [hopen] at herror hcompleted hstage <;>
    exact ⟨herror, hcompleted, hstage⟩

theorem canceled_detailsAgree (h : r.DetailsAgree) {id : AnalysisId} {userId : UserId}
    (hguard : r.cancelable id userId) : r.canceled.DetailsAgree := by
  obtain ⟨herror, hcompleted, hstage⟩ := h.unset (Analysis.cancelable_iff.mp hguard).2.2
  simp [Analysis.detailsAgree_iff, Analysis.canceled, herror, hcompleted, hstage]

theorem failedWaiting_detailsAgree (h : r.DetailsAgree) {songId : SongId}
    (hguard : r.waitingFor songId) (errorCode : String) :
    (r.failedWaiting errorCode now).DetailsAgree := by
  obtain ⟨-, -, hstage⟩ := h.unset (Or.inr (Analysis.waitingFor_iff.mp hguard).2)
  simp [Analysis.detailsAgree_iff, Analysis.failedWaiting, hstage]

theorem woken_detailsAgree (h : r.DetailsAgree) {songId : SongId} (hguard : r.waitingFor songId) :
    r.woken.DetailsAgree := by
  obtain ⟨herror, hcompleted, hstage⟩ := h.unset (Or.inr (Analysis.waitingFor_iff.mp hguard).2)
  simp [Analysis.detailsAgree_iff, Analysis.woken, herror, hcompleted, hstage]

/-- The position of a row is none of its details. -/
theorem atPosition_detailsAgree (h : r.DetailsAgree) (position : ℕ) :
    (r.atPosition position).DetailsAgree :=
  ⟨h.errorCode, h.completedAt, h.currentStage⟩

/-- A row that is written under a guard. -/
theorem ite_detailsAgree {c : Prop} [Decidable c] {t : Analysis} (h : r.DetailsAgree)
    (ht : c → t.DetailsAgree) : (if c then t else r).DetailsAgree := by
  split_ifs with hguard
  · exact ht hguard
  · exact h

theorem ite_detailsAgree_iff {c p : Prop} [Decidable c] {t : Analysis} (h : r.DetailsAgree)
    (ht : t.DetailsAgree ↔ p) : (if c then t else r).DetailsAgree ↔ (c → p) := by
  split_ifs with hguard
  · rw [ht, forall_prop_of_true hguard]
  · exact iff_of_true h fun hguard' => absurd hguard' hguard

/-- **One statement on one row**: the columns agree afterwards if and only if the
statement clears what the status before left. -/
theorem onRow_detailsAgree {s : Statement} (h : r.DetailsAgree)
    (hrow : s.onRow now db r = some b) : b.DetailsAgree ↔ s.clears r := by
  cases s <;> simp only [Statement.onRow, Option.some.injEq, Option.ite_none_left_eq_some] at hrow
  case retry | retryToWaitingForReference =>
    -- a retried row keeps the error of its failure
    subst hrow
    split_ifs with hguard
    · exact iff_of_false (retried_not_detailsAgree h hguard (by simp)) (not_not_intro hguard)
    · exact iff_of_true h hguard
  case markProcessing =>
    subst hrow
    exact ite_detailsAgree_iff h (processing_detailsAgree h)
  case saveStageProgress =>
    subst hrow
    exact ite_detailsAgree_iff h (withProgress_detailsAgree h)
  case markDone =>
    subst hrow
    exact ite_detailsAgree_iff h (completed_detailsAgree h)
  case markFailed errorCode =>
    subst hrow
    exact iff_of_true (ite_detailsAgree h fun _ => failedWith_detailsAgree r errorCode) trivial
  case cancel =>
    subst hrow
    exact iff_of_true (ite_detailsAgree h (canceled_detailsAgree h)) trivial
  case failWaitingForReference errorCode =>
    subst hrow
    refine iff_of_true (ite_detailsAgree h fun hguard => ?_) trivial
    exact failedWaiting_detailsAgree h hguard errorCode
  case wakeWaitingForReference songId =>
    -- woken or not, and then numbered or not
    have hwoken : (if r.waitingFor songId then r.woken else r).DetailsAgree :=
      ite_detailsAgree h (woken_detailsAgree h)
    subst hrow
    exact iff_of_true (ite_detailsAgree hwoken fun _ => atPosition_detailsAgree hwoken _) trivial
  case recalculatePositions =>
    subst hrow
    exact iff_of_true (ite_detailsAgree h fun _ => atPosition_detailsAgree h _) trivial
  case setQueueStreamId =>
    subst hrow
    refine iff_of_true (ite_detailsAgree h fun _ => ?_) trivial
    exact ⟨h.errorCode, h.completedAt, h.currentStage⟩
  case delete | deleteSong => exact iff_of_true (hrow.2 ▸ h) trivial
  all_goals exact iff_of_true (hrow ▸ h) trivial

/-- A row is inserted without details. -/
theorem inserted_detailsAgree {s : Statement} (hstatus : r.status = .queued ∨
    r.status = .waitingForReference) (hins : r ∈ s.inserted now db) : r.DetailsAgree := by
  cases s <;> simp only [Statement.inserted, List.mem_singleton, List.not_mem_nil] at hins
  subst hins
  rcases hstatus with hstatus | hstatus <;> simp_all [Analysis.detailsAgree_iff]

/-- A statement keeps the rows it does not delete. -/
theorem onRow_eq_none {s : Statement} (hrow : s.onRow now db r = none) : s.clears r := by
  cases s <;> simp only [Statement.onRow, reduceCtorEq] at hrow
  all_goals trivial

end

/-! ## The tables -/

def World.DetailsAgree (w : World) : Prop := ∀ r ∈ w.db.analyses, r.DetailsAgree

instance (w : World) : Decidable w.DetailsAgree := inferInstanceAs (Decidable (∀ r ∈ _, _))

variable {cfg : Config} {w w' : World} {a : Action} {e : Effect}

/-- **One step on the tables.** -/
theorem apply_detailsAgree (h : w.DetailsAgree) (hplan : plan cfg w a = some e) :
    (w.apply e).DetailsAgree ↔ ∀ s ∈ e.statement, ∀ r ∈ w.db.analyses, s.clears r := by
  cases hs : e.statement with
  | none =>
    have hdb : (w.apply e).db = w.db := by simp only [World.apply, hs, Option.elim_none]
    refine iff_of_true (fun r hr => h r (hdb ▸ hr)) fun s hs' => ?_
    cases hs'
  | some s =>
    have hdb : (w.apply e).db = s.run w.now w.db := by
      simp only [World.apply, hs, Option.elim_some]
    simp only [World.DetailsAgree, hdb, Option.mem_some_iff, forall_eq']
    constructor
    · intro hagree r hr
      cases hrow : s.onRow w.now w.db r with
      | none => exact onRow_eq_none hrow
      | some b =>
        exact (onRow_detailsAgree (h r hr) hrow).mp (hagree b (mem_run.mpr (Or.inl ⟨r, hr, hrow⟩)))
    · intro hclears b hb
      rcases mem_run.mp hb with ⟨r, hr, hrow⟩ | hins
      · exact (onRow_detailsAgree (h r hr) hrow).mpr (hclears r hr)
      · exact inserted_detailsAgree (plan_inserted_status hplan hs hins) hins

/-! ## What the worker saves to is processing -/

/-- The analysis whose row the handler has read. -/
def Worker.handling : Worker → Option AnalysisId
  | .analysisContext _ id .. | .analysisStart _ id .. | .analysisRun _ id .. => some id
  | _ => none

/-- The analysis whose stages the worker is going through. -/
def Worker.saves : Worker → Option AnalysisId
  | .analysisRun _ id _ saving remaining =>
      if saving ++ remaining.flatten = [] then none else some id
  | _ => none

/-- The row of the analysis whose stages are saved is `processing`. -/
structure Progressing (w : World) : Prop where
  sound : w.Sound
  taken : ∀ id, w.worker.handling = some id → id < w.nextUuid
  saves : ∀ id, w.worker.saves = some id → w.db.OnlyStatus id .processing

theorem Progressing.empty : Progressing {} := ⟨World.Sound.empty, by simp [Worker.handling], by
  simp [Worker.saves]⟩

theorem Worker.handling_of_saves {worker : Worker} {id : AnalysisId} (h : worker.saves = some id) :
    worker.handling = some id := by
  cases worker <;> simp only [Worker.saves, reduceCtorEq, Option.ite_none_left_eq_some] at h
  exact h.2

/-- The handler takes its analysis from a row. -/
theorem plan_handling (hsound : w.Sound) (hplan : plan cfg w a = some e) {id : AnalysisId}
    (hid : e.worker.handling = some id) :
    w.worker.handling = some id ∨ id < w.nextUuid := by
  by_cases hapi : a.ofApi
  · rw [plan_worker hplan hapi] at hid
    exact Or.inl hid
  have hmove := plan_move hplan (by simpa using hapi)
  generalize w.worker = worker at hmove
  cases hmove
  case rowRead r hr =>
    cases hid
    obtain ⟨hmem, rfl⟩ := hsound.db.analysis_eq_some.mp hr
    exact Or.inr (hsound.fresh r hmem)
  all_goals first
    | exact Or.inl hid
    | cases hid

/-- Going through the stages starts with `mark_processing`, and touches no status. -/
theorem plan_saves (hplan : plan cfg w a = some e) {id : AnalysisId}
    (hid : e.worker.saves = some id) :
    (∃ first index total, e.statement = some (.markProcessing id first index total)) ∨
      w.worker.saves = some id := by
  by_cases hapi : a.ofApi
  · rw [plan_worker hplan hapi] at hid
    exact Or.inr hid
  have hmove := plan_move hplan (by simpa using hapi)
  generalize w.worker = worker at hmove
  cases hmove
  case markProcessing =>
    cases (Option.ite_none_left_eq_some.mp hid).2
    exact Or.inl ⟨_, _, _, rfl⟩
  case nothingLeft h =>
    obtain ⟨hne, -⟩ := Option.ite_none_left_eq_some.mp hid
    exact absurd (List.head?_eq_none_iff.mp h) hne
  case saveStageProgress =>
    cases (Option.ite_none_left_eq_some.mp hid).2
    exact Or.inr (by simp [Worker.saves])
  case entryRan =>
    obtain ⟨hne, heq⟩ := Option.ite_none_left_eq_some.mp hid
    cases heq
    exact Or.inr (if_neg (by simpa using hne))
  all_goals cases hid

/-- A row whose stages are being saved keeps its status. -/
theorem onRow_processing (hplan : plan cfg w a = some e) {s : Statement}
    (hs : e.statement = some s) {r b : Analysis} (hsaves : w.worker.saves = some r.id)
    (hr : r.status = .processing) (hrow : s.onRow w.now w.db r = some b) :
    b.status = .processing := by
  rcases onRow_status hrow with heq | hmove
  · exact heq.trans hr
  by_cases hapi : a.ofApi
  · -- the API moves no processing row
    have hwrites := plan_apiWrites hplan hapi hs
    generalize b.status = status at hmove ⊢
    cases hmove with
    | cancel hguard =>
      rcases (Analysis.cancelable_iff.mp hguard).2.2 with h | h <;> rw [hr] at h <;> cases h
    | retry hguard | retryToWaitingForReference hguard =>
      have h := (Analysis.retryable_iff.mp hguard).2.2
      rw [hr] at h
      cases h
    | _ => cases hwrites
  · -- the worker saves a stage or runs the next entry
    have hwrites := plan_workerWrites hplan (by simpa using hapi) hs
    generalize w.worker = worker at hsaves hwrites
    cases hwrites <;> simp only [Worker.saves, reduceCtorEq] at hsaves
    cases hmove

/-- **The worker saves stages of a processing row.** -/
theorem Progressing.step (h : Progressing w) (hstep : step cfg w a = some w') :
    Progressing w' := by
  have hsound := h.sound.step hstep
  rcases step_cases hstep with hlife | ⟨e, hplan, rfl⟩
  · have hsame := lifecycle_untouched hlife
    refine ⟨hsound, fun id hid => ?_, fun id hid => ?_⟩
    · rcases hsame.worker with hw | hw | hw <;> rw [hw] at hid
      · exact hsame.nextUuid ▸ h.taken id hid
      · cases hid
      · cases hid
    · rcases hsame.worker with hw | hw | hw <;> rw [hw] at hid
      · exact hsame.db ▸ h.saves id hid
      · cases hid
      · cases hid
  · have htaken : ∀ id, e.worker.handling = some id → id < w.nextUuid := fun id hid =>
      (plan_handling h.sound hplan hid).elim (h.taken id) fun hlt => hlt
    refine ⟨hsound, fun id hid => (htaken id hid).trans_le (Nat.le_add_right _ _), ?_⟩
    intro id hid
    cases hs : e.statement with
    | none =>
      simp only [World.apply, hs, Option.elim_none]
      rcases plan_saves hplan hid with ⟨_, _, _, hmark⟩ | hsaves
      · rw [hs] at hmark
        cases hmark
      · exact h.saves id hsaves
    | some s =>
      simp only [World.apply, hs, Option.elim_some]
      intro r hr hrid
      rcases mem_run.mp hr with ⟨b, hb, hrow⟩ | hins
      · have hbid : b.id = id := (onRow_id hrow).symm.trans hrid
        rcases plan_saves hplan hid with ⟨first, index, total, hmark⟩ | hsaves
        · cases hs.symm.trans hmark
          simp only [Statement.onRow, hbid, if_true, Option.some.injEq] at hrow
          rw [← hrow]
          rfl
        · exact onRow_processing hplan hs (hbid ▸ hsaves) (h.saves id hsaves b hb hbid) hrow
      · -- a new row is none the worker has read
        obtain ⟨heq, -⟩ := plan_newId hplan hs (inserted_id hins).1
        have hlt := htaken id (Worker.handling_of_saves hid)
        rw [← hrid, heq] at hlt
        exact absurd hlt (Nat.lt_irrefl _)

/-! ## A whole run -/

/-- The step writes every detail column its statement's new status asks for. -/
def KeepsDetails (w : World) : Action → Prop
  | .advance (.retryUpdate userId id) | .advance (.retryWaiting userId id) =>
      ∀ r ∈ w.db.analyses, ¬ r.retryable id userId
  | .work =>
      match w.worker with
      | .analysisStart _ id _ remaining =>
          remaining.flatten ≠ [] →
            ∀ r ∈ w.db.analyses, r.id = id → r.status ≠ .done ∧ r.status ≠ .failed
      | .analysisDone _ id => ∀ r ∈ w.db.analyses, r.id = id → r.status ≠ .failed
      | _ => True
  | _ => True

theorem keepsDetails_of_clears (hplan : plan cfg w a = some e)
    (h : ∀ s ∈ e.statement, ∀ r ∈ w.db.analyses, s.clears r) : KeepsDetails w a := by
  cases a with
  | advance c =>
    obtain ⟨-, heq⟩ := Option.ite_none_right_eq_some.mp hplan
    cases heq
    cases c <;> first | trivial | exact h _ rfl
  | work =>
    change w.worker.plan cfg w = some e at hplan
    unfold KeepsDetails
    generalize w.worker = worker at hplan
    cases worker with
    | analysisStart entry id active remaining =>
      intro hne
      obtain ⟨first, hfirst⟩ : ∃ first, remaining.flatten.head? = some first :=
        Option.ne_none_iff_exists'.mp (mt List.head?_eq_none_iff.mp hne)
      cases hplan
      exact h (.markProcessing id first _ _) (by rw [hfirst]; rfl)
    | analysisDone entry id =>
      cases hplan
      exact h _ rfl
    | _ => trivial
  | _ => trivial

/-- **The condition is about the statement of the step.** -/
theorem keepsDetails_iff (h : Progressing w) (hplan : plan cfg w a = some e) :
    KeepsDetails w a ↔ ∀ s ∈ e.statement, ∀ r ∈ w.db.analyses, s.clears r := by
  refine ⟨fun hkeeps s hs r hr => ?_, keepsDetails_of_clears hplan⟩
  by_cases hapi : a.ofApi
  · cases plan_apiWrites hplan hapi hs
    case retry | retryWaiting => exact hkeeps r hr
    all_goals trivial
  have hmove := plan_move hplan (by simpa using hapi)
  have hsaves := h.saves
  revert hkeeps
  unfold KeepsDetails
  generalize w.worker = worker at hmove hsaves ⊢
  cases hmove <;> cases hs <;> intro hkeeps
  case markProcessing.refl hfirst =>
    refine hkeeps (fun hnil => ?_) r hr
    rw [hnil] at hfirst
    cases hfirst
  case markDone.refl => exact hkeeps r hr
  case saveStageProgress.refl =>
    exact fun hid _ => hsaves _ (by simp [Worker.saves]) r hr hid
  all_goals trivial

/-- **When status and detail columns agree.**  In a run from the empty system they agree
in every state if and only if no retry finds its failed row, the handler marks no row as
processing that is done or failed, and it marks no failed row as done. -/
theorem detailsAgree_along_iff (cfg : Config) (as : List Action) :
    Along (step cfg) World.DetailsAgree {} as ↔ Meets (step cfg) KeepsDetails {} as := by
  refine along_iff_meets Progressing (fun w a w' h hstep => h.step hstep) ?_ Progressing.empty
    (fun r hr => by cases hr) as
  intro w a w' h hagree hstep
  rcases step_cases hstep with hlife | ⟨e, hplan, rfl⟩
  · have hdb := (lifecycle_untouched hlife).db
    refine iff_of_true (fun r hr => hagree r (hdb ▸ hr)) ?_
    cases a <;> trivial
  · rw [apply_detailsAgree hagree hplan, keepsDetails_iff h hplan]

/-! ## A retried analysis -/

/-- A take cannot be aligned, and its owner retries the analysis. -/
def retriesFailed : List Action :=
  preparesFirstSong ++ enqueuesReady 7 0 1 1 ++
    [.deliver, .work, .work, .work, .entryFails "ALIGNMENT_FAILED", .work,
     .request (.retry 7 1), .advance (.retrySong 7 1 0), .advance (.retryLength 7 1),
     .advance (.retryUpdate 7 1)]

/-- The queued row is still completed. -/
theorem not_forall_detailsAgree :
    ¬ ∀ (as : List Action) (w : World), exec (step defaultConfig) {} as = some w →
      w.DetailsAgree := by
  intro h
  have hrun : (exec (step defaultConfig) {} retriesFailed).map (fun w => decide w.DetailsAgree)
      = some false := by
    decide +kernel
  obtain ⟨w, hw, hfalse⟩ := Option.map_eq_some_iff.mp hrun
  exact of_decide_eq_false hfalse (h retriesFailed w hw)

end VocalCoach
