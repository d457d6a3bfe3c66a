/-
# Rows over a ticket step

A ticket step moves tickets and rows together.  `RowStep` is where a row of the state
after the step comes from: it stays with a quiet move of its status, enters the queue with
a new ticket, is inserted, or ends with the job in the worker's hands.  The counting
lemmas are the other half: what is issued gains a ticket and nothing else does.

`step_unsent` and `step_entries` are what is left of this when somebody may fail with a
ticket in hand: no ticket comes from nowhere.
-/
import VocalCoach.QueueTickets

namespace VocalCoach

open RedisStream Machine

variable {cfg : Config} {w w' : World} {a : Action} {e : Effect} {added : Option AnalysisId}

/-! ## Rows over a ticket step -/

/-- How the status of a row may change in a step that neither queues it nor ends its job. -/
inductive QuietMove : AnalysisStatus → AnalysisStatus → Prop
  | same {status} : QuietMove status status
  | cancel {status} (h : status = .queued ∨ status = .waitingForReference) :
      QuietMove status .canceled
  | wait : QuietMove .failed .waitingForReference
  | start {status} : QuietMove status .processing
  | fail : QuietMove .waitingForReference .failed

/-- Where a row of the state after a step comes from; `issued` are the analyses the step
puts into the queue. -/
inductive RowStep (w w' : World) (issued : List AnalysisId) (r : Analysis) : Prop
  | stays {b} (hb : b ∈ w.db.analyses) (hid : b.id = r.id) (hmove : QuietMove b.status r.status)
      (hseq : r.status = .queued → b.queueSeq = r.queueSeq) (hissued : r.id ∉ issued)
  | enters {b} (hb : b ∈ w.db.analyses) (hid : b.id = r.id)
      (hb' : b.status = .failed ∨ b.status = .waitingForReference) (hr : r.status = .queued)
      (hissued : r.id ∈ issued)
  | inserted (hid : r.id = w.nextUuid)
      (hr : (r.status = .queued ∧ r.id ∈ issued) ∨
        (r.status = .waitingForReference ∧ r.id ∉ issued))
  | ends {entry} (hhand : w.worker.hand = some ⟨entry, r.id⟩)
      (hunsent : w'.unsent.Perm w.unsent)
      (hsent : w'.sent = w.sent.filter fun x => x.id ≠ entry)
      (hretires : w'.worker.retires = some entry) (hr : r.status = .done ∨ r.status = .failed)

/-- What a step puts into the queue. -/
def World.issued (cfg : Config) (w : World) (a : Action) : List AnalysisId :=
  (stepStatement cfg w a).elim [] (Statement.issues w.db)

/-- **What is issued** is new, or failed or waited. -/
theorem issued_from (hstep : step cfg w a = some w') {id : AnalysisId}
    (hid : id ∈ w.issued cfg a) :
    (id = w.nextUuid ∧ w.nextUuid < w'.nextUuid) ∨
      ∃ r ∈ w.db.analyses, r.id = id ∧ (r.status = .failed ∨ r.status = .waitingForReference) := by
  rw [World.issued] at hid
  cases hs : stepStatement cfg w a with
  | none =>
    rw [hs] at hid
    cases hid
  | some s =>
    rw [hs, Option.elim_some] at hid
    obtain ⟨e, hplan, hstatement⟩ := Option.bind_eq_some_iff.mp hs
    cases s <;> simp only [Statement.issues, List.not_mem_nil] at hid
    case create i _ _ status _ =>
      cases status <;> simp only [List.mem_singleton, List.not_mem_nil] at hid
      obtain ⟨hi, hnew⟩ := plan_newId hplan hstatement rfl
      refine Or.inl ⟨hid.trans hi, ?_⟩
      rw [step_eq_apply hstep hplan, World.apply, hnew]
      exact Nat.lt_succ_self _
    case retry i userId =>
      split_ifs at hid with hany
      · obtain ⟨r, hr, hguard⟩ := List.any_eq_true.mp hany
        obtain ⟨hrid, -, hfailed⟩ := Analysis.retryable_iff.mp hguard
        exact Or.inr ⟨r, hr, hrid.trans (List.mem_singleton.mp hid).symm, Or.inl hfailed⟩
      · cases hid
    case wakeWaitingForReference songId =>
      obtain ⟨r, hr, hrid⟩ := List.mem_map.mp hid
      obtain ⟨hr, hguard⟩ := List.mem_filter.mp hr
      exact Or.inr ⟨r, hr, hrid, Or.inr (Analysis.waitingFor_iff.mp hguard).2⟩

/-- Nothing is issued twice by one step. -/
theorem World.Sound.issued_nodup (h : w.Sound) : (w.issued cfg a).Nodup := by
  rw [World.issued]
  cases stepStatement cfg w a with
  | none => exact List.nodup_nil
  | some s =>
    cases s <;> simp only [Option.elim_some, Statement.issues, List.nodup_nil]
    case create _ _ _ status _ => cases status <;> simp only [List.nodup_nil, List.nodup_singleton]
    case retry => split_ifs <;> simp only [List.nodup_nil, List.nodup_singleton]
    case wakeWaitingForReference =>
      refine List.Nodup.sublist (List.filter_sublist.map _) ?_
      exact List.pairwise_map.mpr (h.db.distinct.imp And.left)

/-- An issued row was failed or waiting, and is queued now. -/
theorem onRow_issued {now : Time} {db : Database} (hdb : db.WellFormed) {s : Statement}
    {b r : Analysis} (hb : b ∈ db.analyses) (hnew : s.newId ≠ some b.id)
    (h : s.onRow now db b = some r) (hissued : r.id ∈ s.issues db) :
    (b.status = .failed ∨ b.status = .waitingForReference) ∧ r.status = .queued := by
  rw [onRow_id h] at hissued
  cases s <;> simp only [Statement.issues, List.not_mem_nil] at hissued
  case create id _ _ status _ =>
    cases status <;> simp only [List.mem_singleton, List.not_mem_nil] at hissued
    exact absurd (congrArg some hissued.symm) hnew
  case retry id userId =>
    split_ifs at hissued with hany
    · obtain ⟨c, hc, hguard⟩ := List.any_eq_true.mp hany
      have hcid := (Analysis.retryable_iff.mp hguard).1
      obtain rfl : c = b := hdb.eq_of_id hc hb (hcid.trans (List.mem_singleton.mp hissued).symm)
      simp only [Statement.onRow, hguard, if_true, Option.some.injEq] at h
      exact ⟨Or.inl (Analysis.retryable_iff.mp hguard).2.2, h ▸ rfl⟩
    · cases hissued
  case wakeWaitingForReference songId =>
    obtain ⟨c, hc, hcid⟩ := List.mem_map.mp hissued
    obtain ⟨hc, hguard⟩ := List.mem_filter.mp hc
    obtain rfl : c = b := hdb.eq_of_id hc hb hcid
    simp only [Statement.onRow, hguard, if_true, Option.some.injEq] at h
    refine ⟨Or.inr (Analysis.waitingFor_iff.mp hguard).2, ?_⟩
    rw [← h]
    rfl

/-- A row that is not issued moves quietly, unless its job ends. -/
theorem onRow_quiet {now : Time} {db : Database} {s : Statement} {b r : Analysis}
    (hb : b ∈ db.analyses) (h : s.onRow now db b = some r) (hissued : r.id ∉ s.issues db)
    (hends : (∀ id, s = .markDone id → b.id ≠ id) ∧ ∀ id c, s = .markFailed id c → b.id ≠ id) :
    QuietMove b.status r.status ∧ (r.status = .queued → b.queueSeq = r.queueSeq) := by
  have hid := onRow_id h
  constructor
  · rcases onRow_status h with hsame | hmove
    · rw [hsame]
      exact .same
    · generalize r.status = status at hmove
      cases hmove with
      | cancel hguard => exact .cancel (Analysis.cancelable_iff.mp hguard).2.2
      | @retry id userId _ hguard =>
        have hany : db.analyses.any (Analysis.retryable id userId) :=
          List.any_eq_true.mpr ⟨b, hb, hguard⟩
        refine absurd ?_ hissued
        simp only [Statement.issues, hany, if_true, List.mem_singleton]
        exact hid.trans (Analysis.retryable_iff.mp hguard).1
      | retryToWaitingForReference hguard =>
        rw [(Analysis.retryable_iff.mp hguard).2.2]
        exact .wait
      | markProcessing => exact .start
      | markDone hbid => exact absurd hbid (hends.1 _ rfl)
      | markFailed hbid => exact absurd hbid (hends.2 _ _ rfl)
      | wake hguard =>
        refine absurd ?_ hissued
        exact List.mem_map.mpr ⟨b, List.mem_filter.mpr ⟨hb, hguard⟩, hid.symm⟩
      | failWaiting hguard =>
        rw [(Analysis.waitingFor_iff.mp hguard).2]
        exact .fail
  · intro hq
    rcases onRow_queueSeq h with hseq | ⟨-, id, userId, hguard, rfl | rfl⟩
    · exact hseq.symm
    · have hany : db.analyses.any (Analysis.retryable id userId) :=
        List.any_eq_true.mpr ⟨b, hb, hguard⟩
      refine absurd ?_ hissued
      simp only [Statement.issues, hany, if_true, List.mem_singleton]
      exact hid.trans (Analysis.retryable_iff.mp hguard).1
    · simp only [Statement.onRow, hguard, if_true, Option.some.injEq] at h
      rw [← h] at hq
      cases hq

/-- The job of a row ends as done or failed. -/
theorem onRow_ends {now : Time} {db : Database} {s : Statement} {b r : Analysis} {id : AnalysisId}
    (hs : s = .markDone id ∨ ∃ errorCode, s = .markFailed id errorCode)
    (h : s.onRow now db b = some r) (hid : b.id = id) : r.status = .done ∨ r.status = .failed := by
  rcases hs with rfl | ⟨errorCode, rfl⟩ <;>
    simp only [Statement.onRow, hid, if_true, Option.some.injEq] at h <;> subst h
  · exact Or.inl rfl
  · exact Or.inr rfl

/-- Where a row comes from whose job may end in this very step. -/
theorem TicketStep.rowStep {s : Statement} {now : Time} {b r : Analysis}
    (h : TicketStep w w' (some s) added) (hb : b ∈ w.db.analyses)
    (hbr : s.onRow now w.db b = some r) (hissued : r.id ∉ s.issues w.db) :
    RowStep w w' (s.issues w.db) r := by
  have hid := (onRow_id hbr).symm
  cases h with
  | issue _ _ hends =>
    have hnot := hends s rfl
    have hother : (∀ i, s = .markDone i → b.id ≠ i) ∧ ∀ i c, s = .markFailed i c → b.id ≠ i := by
      constructor
      · rintro i rfl
        cases hnot
      · rintro i c rfl
        cases hnot
    obtain ⟨hmove, hseq⟩ := onRow_quiet hb hbr hissued hother
    exact .stays hb hid hmove hseq hissued
  | undo =>
    obtain ⟨hmove, hseq⟩ := onRow_quiet hb hbr hissued ⟨nofun, nofun⟩
    exact .stays hb hid hmove hseq hissued
  | @finish entry id _ _ hhand hunsent hsent hretires hkind =>
    by_cases hbid : b.id = id
    · have hrid : r.id = id := hid.symm.trans hbid
      exact .ends (hrid ▸ hhand) hunsent hsent hretires (onRow_ends hkind hbr hbid)
    · have hother : (∀ i, s = .markDone i → b.id ≠ i) ∧ ∀ i c, s = .markFailed i c → b.id ≠ i := by
        rcases hkind with rfl | ⟨errorCode, rfl⟩
        · exact ⟨fun i h => by cases h; exact hbid, nofun⟩
        · exact ⟨nofun, fun i c h => by cases h; exact hbid⟩
      obtain ⟨hmove, hseq⟩ := onRow_quiet hb hbr hissued hother
      exact .stays hb hid hmove hseq hissued

/-- **Where a row comes from.** -/
theorem step_rowStep (hsound : w.Sound) (hstep : step cfg w a = some w')
    (hticket : TicketStep w w' (stepStatement cfg w a) (stepAppends cfg w a)) {r : Analysis}
    (hr : r ∈ w'.db.analyses) : RowStep w w' (w.issued cfg a) r := by
  rw [step_db hstep] at hr
  rw [World.issued]
  cases hs : stepStatement cfg w a with
  | none =>
    rw [hs] at hr
    exact .stays hr rfl .same (fun _ => rfl) List.not_mem_nil
  | some s =>
    rw [hs] at hr hticket
    obtain ⟨e, hplan, hstatement⟩ := Option.bind_eq_some_iff.mp hs
    have hnew : ∀ {id}, s.newId = some id → id = w.nextUuid :=
      fun hid => (plan_newId hplan hstatement hid).1
    rcases mem_run.mp hr with ⟨b, hb, hbr⟩ | hins
    · have hold : s.newId ≠ some b.id := by
        intro heq
        exact absurd (hsound.fresh b hb) (hnew heq ▸ Nat.lt_irrefl _)
      by_cases hissued : r.id ∈ s.issues w.db
      · obtain ⟨hb', hr'⟩ := onRow_issued hsound.db hb hold hbr hissued
        exact .enters hb (onRow_id hbr).symm hb' hr' hissued
      · exact hticket.rowStep hb hbr hissued
    · refine .inserted (hnew (inserted_id hins).1) ?_
      have hstatus := plan_inserted_status hplan hstatement hins
      cases s <;> simp only [Statement.inserted, List.mem_singleton, List.not_mem_nil] at hins
      subst hins
      rcases hstatus with h | h <;> simp only at h <;> subst h
      · exact Or.inl ⟨rfl, List.mem_singleton.mpr rfl⟩
      · exact Or.inr ⟨rfl, List.not_mem_nil⟩

/-! ## Counting tickets -/

theorem tickets_of_perm {issued : List AnalysisId} (hunsent : w'.unsent.Perm (issued ++ w.unsent))
    (hsent : w'.sent = w.sent) (id : AnalysisId) :
    w'.tickets id = w.tickets id + issued.count id := by
  rw [World.tickets, World.tickets, hunsent.count_eq, hsent, List.count_append]
  omega

theorem tickets_filter_le {p : Entry AnalysisId → Bool} (hunsent : w'.unsent.Perm w.unsent)
    (hsent : w'.sent = w.sent.filter p) (id : AnalysisId) : w'.tickets id ≤ w.tickets id := by
  rw [World.tickets, World.tickets, hunsent.count_eq, hsent]
  exact Nat.add_le_add_left List.filter_sublist.countP_le _

/-- Sending a ticket keeps it. -/
theorem tickets_send {id : AnalysisId} (hunsent : w.unsent.Perm (id :: w'.unsent))
    {entry : EntryId} (hsent : w'.sent = w.sent ++ [⟨entry, id⟩]) (i : AnalysisId) :
    w'.tickets i = w.tickets i := by
  rw [World.tickets, World.tickets, hunsent.count_eq, hsent, List.countP_append, List.count_cons]
  by_cases hid : id = i <;> simp [hid]
  omega

/-- Only what is issued gains a ticket. -/
theorem TicketStep.tickets_le {s : Option Statement} (h : TicketStep w w' s added)
    (id : AnalysisId) :
    w'.tickets id ≤ w.tickets id + (s.elim [] (Statement.issues w.db)).count id := by
  cases h with
  | issue hunsent hsent => exact (tickets_of_perm hunsent hsent id).le
  | send hunsent hsent => exact (tickets_send hunsent hsent id).le
  | undo hunsent hsent =>
    rw [World.tickets, World.tickets, hunsent.count_eq, hsent, List.count_cons]
    omega
  | withdraw _ hunsent hsent => exact tickets_filter_le hunsent hsent id
  | finish _ hunsent hsent =>
    exact (tickets_filter_le hunsent hsent id).trans (Nat.le_add_right _ _)

/-- What is issued gains a ticket for each time it is, and nothing is sent. -/
theorem TicketStep.tickets_issued {s : Option Statement} (h : TicketStep w w' s added)
    {id : AnalysisId} (hid : id ∈ s.elim [] (Statement.issues w.db)) :
    w'.tickets id = w.tickets id + (s.elim [] (Statement.issues w.db)).count id := by
  cases h with
  | issue hunsent hsent => exact tickets_of_perm hunsent hsent id
  | send | undo | withdraw => cases hid
  | finish _ _ _ _ hkind => rcases hkind with rfl | ⟨_, rfl⟩ <;> cases hid

theorem TicketStep.mem_unsent {s : Option Statement} (h : TicketStep w w' s added)
    {id : AnalysisId} (hid : id ∈ w'.unsent) :
    id ∈ w.unsent ∨ id ∈ s.elim [] (Statement.issues w.db) := by
  cases h with
  | issue hunsent => exact (List.mem_append.mp (hunsent.mem_iff.mp hid)).symm
  | send hunsent | undo hunsent =>
    exact Or.inl (hunsent.mem_iff.mpr (List.mem_cons_of_mem _ hid))
  | withdraw _ hunsent | finish _ hunsent => exact Or.inl (hunsent.mem_iff.mp hid)

/-- An entry is in the stream already, or was just sent. -/
theorem TicketStep.mem_sent {s : Option Statement} (h : TicketStep w w' s added)
    {x : Entry AnalysisId} (hx : x ∈ w'.sent) :
    x ∈ w.sent ∨
      (x.id = w.run.lastId + 1 ∧ x.fields ∈ w.unsent ∧ s = none ∧ added = some x.fields) := by
  cases h with
  | issue _ hsent | undo _ hsent => exact Or.inl (hsent ▸ hx)
  | send hunsent hsent =>
    rw [hsent, List.mem_append, List.mem_singleton] at hx
    rcases hx with hx | rfl
    · exact Or.inl hx
    · exact Or.inr ⟨rfl, hunsent.mem_iff.mpr List.mem_cons_self, rfl, rfl⟩
  | withdraw _ _ hsent | finish _ _ hsent =>
    rw [hsent] at hx
    exact Or.inl (List.mem_of_mem_filter hx)

theorem tickets_pos_of_sent {x : Entry AnalysisId} (hx : x ∈ w.sent) : 0 < w.tickets x.fields := by
  have hcount : 0 < w.sent.countP fun y => y.fields = x.fields :=
    List.countP_pos_iff.mpr ⟨x, hx, decide_eq_true rfl⟩
  rw [World.tickets]
  omega

/-! ## Tickets to come, whatever fails -/

theorem World.mem_unsent {id : AnalysisId} :
    id ∈ w.unsent ↔ (∃ c ∈ w.calls, c.owes = some id) ∨ id ∈ w.worker.toAppend := by
  rw [World.unsent, List.mem_append, List.mem_filterMap]

/-- A request that owes an entry owed it before, or has just queued the row, alone. -/
theorem plan_owes (hplan : plan cfg w a = some e) {c : Call} (hc : c ∈ e.calls)
    {id : AnalysisId} (howes : c.owes = some id) :
    (∃ d ∈ w.calls, d.owes = some id) ∨ e.statement.elim [] (Statement.issues w.db) = [id] := by
  by_cases ha : a.ofApi
  · cases plan_apiMove hplan ha with
    | request hmove =>
      refine Or.inl ⟨c, ?_, howes⟩
      cases hmove <;> simp only [World.keep, List.mem_cons] at hc
      case refused => exact hc
      all_goals
        rcases hc with rfl | hc
        · cases howes
        · exact hc
    | @advance c₀ _ hc₀ hmove =>
      have hrest : c ∈ w.calls.erase c₀ → ∃ d ∈ w.calls, d.owes = some id :=
        fun hc => ⟨c, List.mem_of_mem_erase hc, howes⟩
      cases hmove <;> simp only [List.mem_cons] at hc
      case createQueued =>
        rcases hc with rfl | hc
        · cases howes
          exact Or.inr rfl
        · exact Or.inl (hrest hc)
      case retryUpdate userId i r hr hguard =>
        rcases hc with rfl | hc
        · cases howes
          have hany : w.db.analyses.any (Analysis.retryable id userId) :=
            List.any_eq_true.mpr ⟨r, hr, hguard⟩
          simp only [Option.elim_some, Statement.issues, hany, if_true, or_true]
        · exact Or.inl (hrest hc)
      case publishFull =>
        rcases hc with rfl | hc
        · exact Or.inl ⟨_, hc₀, howes⟩
        · exact Or.inl (hrest hc)
      all_goals first
        | exact Or.inl (hrest hc)
        | (rcases hc with rfl | hc
           · cases howes
           · exact Or.inl (hrest hc))
    | @abort c₀ hc₀ =>
      refine Or.inl ⟨c, ?_, howes⟩
      cases c₀ <;> simp only [Call.onError, List.mem_cons] at hc
      case cancelRemove =>
        rcases hc with rfl | hc
        · cases howes
        · exact List.mem_of_mem_erase hc
      all_goals exact List.mem_of_mem_erase hc
  · rw [(plan_move hplan (by simpa using ha)).calls.1] at hc
    exact Or.inl ⟨c, hc, howes⟩

/-- What the worker is to append it was to append before, or has just woken. -/
theorem plan_toAppend (hplan : plan cfg w a = some e) :
    e.worker.toAppend.Sublist w.worker.toAppend ∨
      ∃ songId, e.statement = some (.wakeWaitingForReference songId) ∧
        a = .wake e.worker.toAppend ∧ e.worker.toAppend.Perm (w.db.newlyQueued songId) := by
  by_cases ha : a.ofApi
  · rw [plan_worker hplan ha]
    exact Or.inl (List.Sublist.refl _)
  have hmove := plan_move hplan (by simpa using ha)
  generalize w.worker = worker at hmove
  cases hmove
  case wake hperm => exact Or.inr ⟨_, rfl, rfl, hperm⟩
  case append => exact Or.inl (List.sublist_cons_self _ _)
  all_goals first
    | exact Or.inl (List.Sublist.refl _)
    | exact Or.inl (List.nil_sublist _)

/-- **What is owed** was owed before or is issued by the step. -/
theorem step_unsent (hstep : step cfg w a = some w') {id : AnalysisId} (hid : id ∈ w'.unsent) :
    id ∈ w.unsent ∨ id ∈ w.issued cfg a := by
  rw [World.mem_unsent] at hid ⊢
  rcases step_cases hstep with hlife | ⟨e, hplan, rfl⟩
  · have hsame := lifecycle_untouched hlife
    rcases hid with ⟨c, hc, howes⟩ | hid
    · exact Or.inl (Or.inl ⟨c, hsame.calls ▸ hc, howes⟩)
    · rcases hsame.worker with hw | hw | hw <;> rw [hw] at hid
      · exact Or.inl (Or.inr hid)
      · cases hid
      · cases hid
  · rw [World.issued, stepStatement_eq hplan]
    rcases hid with ⟨c, hc, howes⟩ | hid
    · refine (plan_owes hplan hc howes).imp Or.inl fun hissues => ?_
      rw [hissues]
      exact List.mem_singleton_self id
    · rcases plan_toAppend hplan with hsub | ⟨songId, hs, -, hperm⟩
      · exact Or.inl (Or.inr (hsub.subset hid))
      · rw [hs]
        exact Or.inr (hperm.mem_iff.mp hid)

/-- Who appends an analysis: a request that owes it, or the worker, the first of the woken. -/
theorem plan_xadd (hplan : plan cfg w a = some e) {id : AnalysisId}
    (hrun : e.run = some (.xadd id)) :
    (∃ c ∈ w.calls, c.owes = some id) ∨ w.worker.toAppend = id :: e.worker.toAppend := by
  by_cases ha : a.ofApi
  · cases plan_apiMove hplan ha with
    | request hmove => cases hmove <;> cases hrun
    | advance hc hmove =>
      cases hmove <;> cases hrun
      case publish.refl => exact Or.inl ⟨_, hc, rfl⟩
      case retryPublish.refl => exact Or.inl ⟨_, hc, rfl⟩
    | abort => cases hrun
  · have hmove := plan_move hplan (by simpa using ha)
    generalize w.worker = worker at hmove
    cases hmove <;> cases hrun
    exact Or.inr rfl

/-- What is appended was owed. -/
theorem mem_unsent_of_xadd (hplan : plan cfg w a = some e) {id : AnalysisId}
    (hrun : e.run = some (.xadd id)) : id ∈ w.unsent := by
  rw [World.mem_unsent]
  refine (plan_xadd hplan hrun).imp_right fun happend => ?_
  rw [happend]
  exact List.mem_cons_self

/-- **What is in the stream** was there before or was owed. -/
theorem step_entries (hstep : step cfg w a = some w') {x : Entry AnalysisId}
    (hx : x ∈ w'.run.entries) : x ∈ w.run.entries ∨ x.fields ∈ w.unsent := by
  rcases step_cases hstep with hlife | ⟨e, hplan, rfl⟩
  · exact Or.inl ((lifecycle_untouched hlife).run ▸ hx)
  cases hrun : e.run with
  | none =>
    simp only [World.apply, hrun, Option.elim_none] at hx
    exact Or.inl hx
  | some c =>
    simp only [World.apply, hrun, Option.elim_some] at hx
    cases c with
    | xadd id =>
      rcases List.mem_append.mp hx with hx | hx
      · exact Or.inl hx
      · rw [List.mem_singleton.mp hx]
        exact Or.inr (mem_unsent_of_xadd hplan hrun)
    | xdel => exact Or.inl (List.mem_of_mem_filter hx)
    | xclaim consumer minIdle id =>
      rw [Command.run, (w.run.xclaim_entries consumer minIdle w.now id).1] at hx
      exact Or.inl hx
    | _ => exact Or.inl hx

end VocalCoach
