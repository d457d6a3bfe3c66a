/-
# Tickets of the queue

A queued analysis is served once it has an entry in `analyses:run`, and until then
somebody owes it one: the request that queued it, or the worker that woke it.  Either is
its ticket.  A ticket is issued when the row is queued, is turned into an entry by `XADD`,
and ends with the handler of the entry, with a cancel or with the roll-back of the row.

`TicketStep` lists what a step does to the tickets and to the row together, and
`step_ticket` says that every step of the system is one of these, as long as nobody fails
with a ticket in hand (`KeepsTickets`).
-/
import VocalCoach.Steps

namespace VocalCoach

open RedisStream

variable {cfg : Config} {w w' : World} {a : Action} {e : Effect}

/-! ## Tickets -/

/-- The analysis a request in flight is about to append, or to undo. -/
def Call.owes : Call → Option AnalysisId
  | .enqueuePublish id | .enqueueRollBack id | .retryPublish id => some id
  | _ => none

/-- The woken analyses yet to be appended. -/
def Worker.toAppend : Worker → List AnalysisId
  | .prepAppend _ _ ids => ids
  | _ => []

/-- The entry of `analyses:run` the worker is done with and is removing. -/
def Worker.retires : Worker → Option EntryId
  | .runAck entry | .runDel entry => some entry
  | _ => none

/-- The entry of `analyses:run` the worker handles or gives up on. -/
def Worker.hand : Worker → Option (Entry AnalysisId)
  | .analysisRead entry id | .analysisContext entry id .. | .analysisStart entry id ..
  | .analysisRun entry id .. | .analysisFail entry id .. | .analysisDone entry id =>
      some ⟨entry, id⟩
  | _ => none

/-- The tickets that are not in the stream yet. -/
def World.unsent (w : World) : List AnalysisId :=
  w.calls.filterMap Call.owes ++ w.worker.toAppend

/-- The entries but the one being removed. -/
def live (retired : Option EntryId) (entries : List (Entry AnalysisId)) :
    List (Entry AnalysisId) :=
  entries.filter fun x => retired ≠ some x.id

/-- The entries that still stand for a ticket. -/
def World.sent (w : World) : List (Entry AnalysisId) := live w.worker.retires w.run.entries

/-- The tickets of an analysis. -/
def World.tickets (w : World) (id : AnalysisId) : ℕ :=
  w.unsent.count id + w.sent.countP fun x => x.fields = id

/-- The worker is in `mark_permanently_failed` of an analysis. -/
def Worker.recordsGiveUp : Worker → Bool
  | .analysisFail _ _ _ true => true
  | _ => false

/-- No request fails, and the worker neither crashes nor raises, with a ticket in hand. -/
def KeepsTickets (w : World) : Action → Prop
  | .abort c => c.settles = false
  | .crash => w.worker.toAppend = [] ∧ w.worker.retires = none
  | .raise => w.worker.toAppend = [] ∧ w.worker.recordsGiveUp = false
  | _ => True

instance (w : World) (a : Action) : Decidable (KeepsTickets w a) := by
  cases a <;> simp only [KeepsTickets] <;> infer_instance

/-- The analyses a statement puts into the queue. -/
def Statement.issues (db : Database) : Statement → List AnalysisId
  | .create id _ _ .queued _ => [id]
  | .retry id userId => if db.analyses.any (Analysis.retryable id userId) then [id] else []
  | .wakeWaitingForReference songId => db.newlyQueued songId
  | _ => []

/-- The statements that end a job or undo a request. -/
def Statement.ends : Statement → Bool
  | .markDone _ | .markFailed .. | .delete _ => true
  | _ => false

/-- The analysis a command appends. -/
def Command.added : Command AnalysisId → Option AnalysisId
  | .xadd id => some id
  | _ => none

/-- The analysis an effect appends to `analyses:run`. -/
def Effect.appends (e : Effect) : Option AnalysisId := e.run.bind Command.added

/-- What a step does to the tickets, with the statement it commits and the analysis it
appends. -/
inductive TicketStep (w w' : World) : Option Statement → Option AnalysisId → Prop
  | issue {s added} (hunsent : w'.unsent.Perm (s.elim [] (Statement.issues w.db) ++ w.unsent))
      (hsent : w'.sent = w.sent) (hs : ∀ t ∈ s, t.ends = false) : TicketStep w w' s added
  | send {id} (hunsent : w.unsent.Perm (id :: w'.unsent))
      (hsent : w'.sent = w.sent ++ [⟨w.run.lastId + 1, id⟩]) : TicketStep w w' none (some id)
  | undo {id added} (hunsent : w.unsent.Perm (id :: w'.unsent)) (hsent : w'.sent = w.sent) :
      TicketStep w w' (some (.delete id)) added
  | withdraw {id entry added} (hcall : Call.cancelRemove id entry ∈ w.calls)
      (hunsent : w'.unsent.Perm w.unsent)
      (hsent : w'.sent = w.sent.filter fun x => x.id ≠ entry) : TicketStep w w' none added
  | finish {entry id s added} (hhand : w.worker.hand = some ⟨entry, id⟩)
      (hunsent : w'.unsent.Perm w.unsent)
      (hsent : w'.sent = w.sent.filter fun x => x.id ≠ entry)
      (hretires : w'.worker.retires = some entry)
      (hs : s = .markDone id ∨ ∃ errorCode, s = .markFailed id errorCode) :
      TicketStep w w' (some s) added

/-- Most steps touch no ticket. -/
theorem TicketStep.keep {s : Option Statement} {added : Option AnalysisId}
    (hunsent : w'.unsent.Perm w.unsent)
    (hsent : w'.sent = w.sent) (hs : ∀ t ∈ s, t.issues w.db = [] ∧ t.ends = false) :
    TicketStep w w' s added := by
  cases s with
  | none => exact .issue hunsent hsent nofun
  | some t =>
    obtain ⟨hissues, hends⟩ := hs t rfl
    refine .issue ?_ hsent (by rintro _ ⟨⟩; exact hends)
    rw [Option.elim_some, hissues]
    exact hunsent

/-! ## Every step is a ticket step -/

@[simp] theorem live_none (entries : List (Entry AnalysisId)) : live none entries = entries := by
  simp [live]

theorem live_some (entry : EntryId) (entries : List (Entry AnalysisId)) :
    live (some entry) entries = entries.filter fun x => x.id ≠ entry :=
  List.filter_congr fun x _ => by simp [eq_comm]

theorem live_filter (retired : Option EntryId) (p : Entry AnalysisId → Bool)
    (entries : List (Entry AnalysisId)) :
    live retired (entries.filter p) = (live retired entries).filter p := by
  simp only [live, List.filter_filter, Bool.and_comm]

theorem live_append {retired : Option EntryId} {x : Entry AnalysisId}
    (h : retired ≠ some x.id) (entries : List (Entry AnalysisId)) :
    live retired (entries ++ [x]) = live retired entries ++ [x] := by
  simp [live, List.filter_append, h]

theorem sent_of_retires (h : w.worker.retires = none) : w.sent = w.run.entries := by
  rw [World.sent, h, live_none]

/-- A request that appends sends its ticket. -/
theorem sent_xadd (hretires : ∀ entry, w.worker.retires = some entry → entry ≤ w.run.lastId)
    (id : AnalysisId) {calls : List Call} :
    (w.apply { w.keep with run := some (.xadd id), calls }).sent
      = w.sent ++ [⟨w.run.lastId + 1, id⟩] := by
  refine live_append (fun heq => ?_) w.run.entries
  exact absurd (hretires _ heq) (Nat.not_succ_le_self _)

theorem CallMove.ticket {c : Call} (hc : c ∈ w.calls)
    (h : CallMove cfg w (w.calls.erase c) c e)
    (hretires : ∀ entry, w.worker.retires = some entry → entry ≤ w.run.lastId) :
    TicketStep w (w.apply e) e.statement e.appends := by
  -- the ticket of the request, if it has one, in front
  have hfront : w.unsent.Perm
      (c.owes.toList ++ ((w.calls.erase c).filterMap Call.owes ++ w.worker.toAppend)) := by
    have hperm := ((List.perm_cons_erase hc).filterMap Call.owes).append_right w.worker.toAppend
    refine hperm.trans (List.Perm.of_eq ?_)
    cases howes : c.owes <;> simp [howes]
  cases h
  case ended hsettles =>
    have howes : c.owes = none := by cases c <;> first | rfl | cases hsettles
    rw [howes] at hfront
    exact .keep hfront.symm rfl (by simp [World.keep])
  case createQueued => exact .issue (hfront.symm.cons _) rfl (by simp [Statement.ends])
  case createWaiting => exact .keep hfront.symm rfl (by simp [Statement.issues, Statement.ends])
  case publish id => exact .send hfront (sent_xadd hretires id)
  case retryPublish id => exact .send hfront (sent_xadd hretires id)
  case rollBack => exact .undo hfront rfl
  case retryUpdate userId id r hr hguard =>
    have hany : w.db.analyses.any (Analysis.retryable id userId) :=
      List.any_eq_true.mpr ⟨r, hr, hguard⟩
    refine .issue ?_ rfl (by simp [Statement.ends])
    simp only [Option.elim_some, Statement.issues, hany, if_true]
    exact hfront.symm.cons _
  case retryMissed hmiss =>
    refine .keep hfront.symm rfl ?_
    simpa [Statement.issues, Statement.ends] using hmiss
  case cancelRemove id entry =>
    exact .withdraw hc hfront.symm (live_filter _ _ _)
  all_goals exact .keep hfront.symm rfl (by simp [World.keep, Statement.issues, Statement.ends])

theorem RequestMove.ticket {r : Request} (h : RequestMove cfg w r e) :
    TicketStep w (w.apply e) e.statement e.appends := by
  cases h <;> exact .keep (List.Perm.refl _) rfl (by simp [World.keep, Statement.issues, Statement.ends])

/-- Moves between places that hold no ticket and retire no entry. -/
theorem ticket_keep {worker : Worker} (hworker : w.worker = worker)
    (hunsent : worker.toAppend = e.worker.toAppend) (hcalls : e.calls = w.calls)
    (hbefore : worker.retires = none) (hafter : e.worker.retires = none)
    (hentries : (w.apply e).run.entries = w.run.entries)
    (hs : ∀ t ∈ e.statement, t.issues w.db = [] ∧ t.ends = false) :
    TicketStep w (w.apply e) e.statement e.appends := by
  refine .keep (List.Perm.of_eq ?_) ?_ hs
  · simp only [World.unsent, World.apply, hworker, hunsent, hcalls]
  · have hbefore' : w.worker.retires = none := by rw [hworker, hbefore]
    rw [sent_of_retires hbefore', sent_of_retires (w := w.apply e) hafter, hentries]

/-- The worker lets go of the entry it holds. -/
theorem ticket_finish {worker : Worker} (hworker : w.worker = worker) {entry : EntryId}
    {id : AnalysisId} {s : Statement} (hhand : worker.hand = some ⟨entry, id⟩)
    (hunsent : worker.toAppend = e.worker.toAppend) (hcalls : e.calls = w.calls)
    (hbefore : worker.retires = none) (hafter : e.worker.retires = some entry)
    (hentries : (w.apply e).run.entries = w.run.entries)
    (hs : s = .markDone id ∨ ∃ errorCode, s = .markFailed id errorCode) :
    TicketStep w (w.apply e) (some s) e.appends := by
  refine .finish (hworker ▸ hhand) (List.Perm.of_eq ?_) ?_ hafter hs
  · simp only [World.unsent, World.apply, hworker, hunsent, hcalls]
  · have hbefore' : w.worker.retires = none := by rw [hworker, hbefore]
    have hafter' : (w.apply e).worker.retires = some entry := hafter
    rw [sent_of_retires hbefore', World.sent, hafter', hentries, live_some]

theorem WorkerMove.ticket {worker : Worker} (hworker : w.worker = worker)
    (h : WorkerMove cfg w a worker e) (hkeep : KeepsTickets w a) :
    TicketStep w (w.apply e) e.statement e.appends := by
  have hunsent : w.unsent = w.calls.filterMap Call.owes ++ worker.toAppend := by
    rw [World.unsent, hworker]
  have hsent : w.sent = live worker.retires w.run.entries := by rw [World.sent, hworker]
  cases h
  case deliver =>
    exact ticket_keep hworker rfl rfl rfl rfl rfl nofun
  case reclaimRun | reclaimRunGone =>
    exact ticket_keep hworker rfl rfl rfl rfl
      (Stream.xclaim_entries _ _ _ _ _).1 nofun
  case giveUpRunGone entry _ _ _ hrange =>
    -- the message it retires is not there
    refine .keep (List.Perm.of_eq hunsent.symm) ?_ nofun
    refine (live_some entry w.run.entries).trans (Eq.trans ?_ (hsent.trans (live_none _)).symm)
    exact List.filter_eq_self.mpr fun x hx => decide_eq_true (Stream.ne_of_xrange hrange hx)
  case markFailed entry id errorCode _ =>
    exact ticket_finish hworker rfl rfl rfl rfl rfl rfl (Or.inr ⟨errorCode, rfl⟩)
  case markDone entry id =>
    exact ticket_finish hworker rfl rfl rfl rfl rfl rfl (Or.inl rfl)
  case runAck => exact .keep (List.Perm.of_eq hunsent.symm) hsent.symm nofun
  case runDel entry =>
    -- what it deletes was retired before
    refine .keep (List.Perm.of_eq hunsent.symm) ?_ nofun
    rw [hsent]
    refine Eq.trans ?_ (live_some entry w.run.entries).symm
    exact live_none _
  case wake entry songId ids hperm =>
    refine .issue ?_ hsent.symm (by simp [Statement.ends])
    have hcalls : w.unsent = w.calls.filterMap Call.owes := hunsent.trans (List.append_nil _)
    rw [hcalls]
    exact List.perm_append_comm.trans (hperm.append_right _)
  case append entry songId id ids =>
    refine .send ?_ ?_
    · rw [hunsent]
      exact List.perm_middle
    · have hnone : Worker.retires (.prepAppend entry songId (id :: ids)) ≠
          some (w.run.lastId + 1) := nofun
      rw [hsent]
      exact live_append hnone w.run.entries
  case raised hraise =>
    have hretires : worker.retires = none := by
      cases worker <;> first | rfl | cases hraise
    obtain ⟨hnone, -⟩ := hkeep
    exact ticket_keep hworker (hworker ▸ hnone) rfl hretires rfl rfl nofun
  case unrecorded =>
    rw [KeepsTickets, hworker] at hkeep
    cases hkeep.2
  all_goals
    exact ticket_keep hworker rfl rfl rfl rfl rfl
      (by simp [World.keep, Statement.issues, Statement.ends])

theorem lifecycle_ticket (h : lifecycle w a = some w') (hkeep : KeepsTickets w a) :
    TicketStep w w' none none := by
  have hsame := lifecycle_untouched h
  have hempty : w'.worker = w.worker ∨
      (w.worker.toAppend = [] ∧ w'.worker.toAppend = [] ∧
        w.worker.retires = none ∧ w'.worker.retires = none) := by
    cases a <;> simp only [lifecycle, reduceCtorEq] at h
    case sleep =>
      cases h
      exact Or.inl rfl
    case start =>
      split_ifs at h with hdown
      cases h
      rw [hdown]
      exact Or.inr ⟨rfl, rfl, rfl, rfl⟩
    case crash =>
      split_ifs at h
      cases h
      exact Or.inr ⟨hkeep.1, rfl, hkeep.2, rfl⟩
    case enterLoop =>
      split_ifs at h
      cases h
      exact Or.inl rfl
  refine .keep (List.Perm.of_eq ?_) ?_ (by simp)
  · rw [World.unsent, World.unsent, hsame.calls]
    rcases hempty with hworker | ⟨hbefore, hafter, -, -⟩
    · rw [hworker]
    · rw [hbefore, hafter]
  · rw [World.sent, World.sent, hsame.run]
    rcases hempty with hworker | ⟨-, -, hbefore, hafter⟩
    · rw [hworker]
    · rw [hbefore, hafter]

/-- The statement a step commits. -/
def stepStatement (cfg : Config) (w : World) (a : Action) : Option Statement :=
  (plan cfg w a).bind Effect.statement

/-- The analysis a step appends to `analyses:run`. -/
def stepAppends (cfg : Config) (w : World) (a : Action) : Option AnalysisId :=
  (plan cfg w a).bind Effect.appends

theorem stepStatement_eq (h : plan cfg w a = some e) : stepStatement cfg w a = e.statement := by
  rw [stepStatement, h, Option.bind_some]

theorem stepAppends_eq (h : plan cfg w a = some e) : stepAppends cfg w a = e.appends := by
  rw [stepAppends, h, Option.bind_some]

/-- The process starting, stopping or waiting asks nothing of a store. -/
theorem plan_of_lifecycle (h : lifecycle w a = some w') : plan cfg w a = none := by
  cases a <;> simp only [lifecycle, reduceCtorEq] at h <;> rfl

/-- What a step does to the tables. -/
theorem step_db (hstep : step cfg w a = some w') :
    w'.db = (stepStatement cfg w a).elim w.db fun s => s.run w.now w.db := by
  rcases step_cases hstep with hlife | ⟨e, hplan, rfl⟩
  · rw [stepStatement, plan_of_lifecycle hlife]
    exact (lifecycle_untouched hlife).db
  · rw [stepStatement_eq hplan]
    rfl

/-- **Every step is a ticket step.** -/
theorem step_ticket (hstep : step cfg w a = some w') (hkeep : KeepsTickets w a)
    (hretires : ∀ entry, w.worker.retires = some entry → entry ≤ w.run.lastId) :
    TicketStep w w' (stepStatement cfg w a) (stepAppends cfg w a) := by
  rcases step_cases hstep with hlife | ⟨e, hplan, rfl⟩
  · rw [stepStatement, stepAppends, plan_of_lifecycle hlife]
    exact lifecycle_ticket hlife hkeep
  · rw [stepStatement_eq hplan, stepAppends_eq hplan]
    by_cases ha : a.ofApi
    · cases plan_apiMove hplan ha with
      | request hmove => exact hmove.ticket
      | advance hc hmove => exact hmove.ticket hc hretires
      | @abort c hc =>
        -- the request held no ticket, and neither does the one that stands for it
        have hperm := (List.perm_cons_erase hc).filterMap Call.owes
        refine .keep ((List.Perm.trans ?_ hperm.symm).append_right _) rfl nofun
        cases c <;> first
          | exact List.Perm.refl _
          | cases hkeep
    · exact (plan_move hplan (by simpa using ha)).ticket rfl hkeep

end VocalCoach
