/-
# The length of `analyses:run`

The limit of the queue is checked against `XLEN`, so the stream has to hold the jobs that
are yet to be done and no others.  `EnqueueIfUnderLimit` appends under the limit;
`Enqueue`, which `Retry` uses, and the wake of the worker append whatever the length is.
An entry is removed by `Cancel`, which knows it by the id its row names, or by the worker,
which acknowledges it first.

* `admitted_le`: the entries that were appended under the limit never exceed it.
* `Tracked.step`: an entry whose job has an outcome is pending, or somebody is about to
  remove it, unless a step leaves it behind (`LeavesBehind`).
* `streamLength`: both, over every run.
-/
import VocalCoach.EntryNames
import VocalCoach.Outcomes
import VocalCoach.QueueTickets

namespace VocalCoach

open RedisStream Machine

variable {cfg : Config} {w w' : World} {a : Action} {e : Effect} {x : Entry AnalysisId}

/-! ## Commands on `analyses:run` -/

/-- The commands on `analyses:run`, each with the step that issues it. -/
inductive RunCommand (cfg : Config) (w : World) : Action → Command AnalysisId → Prop
  | publish {id} (hlength : w.run.xlen < cfg.queueMaxLength) :
      RunCommand cfg w (.advance (.enqueuePublish id)) (.xadd id)
  | retryPublish {id} : RunCommand cfg w (.advance (.retryPublish id)) (.xadd id)
  | append {id} (hworker : w.worker.toAppend ≠ []) : RunCommand cfg w .work (.xadd id)
  | cancelRemove {id entry} : RunCommand cfg w (.advance (.cancelRemove id entry)) (.xdel entry)
  | xack {entry} (hworker : w.worker = .runAck entry) : RunCommand cfg w .work (.xack entry)
  | xdel {entry} (hworker : w.worker = .runDel entry) : RunCommand cfg w .work (.xdel entry)
  | xreadgroup {consumer count} (hworker : w.worker = .idle) :
      RunCommand cfg w .deliver (.xreadgroup consumer count)
  | xclaim {consumer minIdle entry} (hworker : w.worker = .idle) :
      RunCommand cfg w (.reclaimRun entry) (.xclaim consumer minIdle entry)

/-- The script appends below the limit only. -/
theorem publish_length {id : AnalysisId} {c : Command AnalysisId}
    (h : plan cfg w (.advance (.enqueuePublish id)) = some e) (hc : e.run = some c) :
    w.run.xlen < cfg.queueMaxLength := by
  by_contra hfull
  simp only [plan, Call.plan, if_pos (Nat.not_lt.mp hfull), Option.ite_none_right_eq_some,
    Option.some.injEq] at h
  obtain ⟨-, rfl⟩ := h
  cases hc

/-- **A command on the stream comes alone**, without a statement. -/
theorem plan_runCommand (h : plan cfg w a = some e) {c : Command AnalysisId}
    (hc : e.run = some c) : RunCommand cfg w a c ∧ e.statement = none := by
  by_cases ha : a.ofApi
  · cases plan_apiMove h ha with
    | request hmove => cases hmove <;> cases hc
    | advance _ hmove =>
      cases hmove <;> cases hc
      case publish.refl => exact ⟨.publish (publish_length h rfl), rfl⟩
      case retryPublish.refl => exact ⟨.retryPublish, rfl⟩
      case cancelRemove.refl => exact ⟨.cancelRemove, rfl⟩
    | abort => cases hc
  · have hmove := plan_move h (by simpa using ha)
    generalize hworker : w.worker = worker at hmove
    cases hmove <;> cases hc
    case deliver.refl => exact ⟨.xreadgroup hworker, rfl⟩
    case reclaimRun.refl | reclaimRunGone.refl => exact ⟨.xclaim hworker, rfl⟩
    case runAck.refl => exact ⟨.xack hworker, rfl⟩
    case runDel.refl => exact ⟨.xdel hworker, rfl⟩
    case append.refl => exact ⟨.append (by rw [hworker]; exact nofun), rfl⟩

/-- **What a step does to the stream.** -/
theorem step_runCommand (hstep : step cfg w a = some w') :
    (w'.run = w.run ∧ stepAppends cfg w a = none) ∨
      ∃ c, RunCommand cfg w a c ∧ w'.run = c.run w.now w.run ∧ w'.db = w.db ∧
        stepAppends cfg w a = c.added := by
  rcases step_cases hstep with hlife | ⟨e, hplan, rfl⟩
  · refine Or.inl ⟨(lifecycle_untouched hlife).run, ?_⟩
    rw [stepAppends, plan_of_lifecycle hlife, Option.bind_none]
  · rw [stepAppends_eq hplan, Effect.appends]
    cases hc : e.run with
    | none => exact Or.inl ⟨by simp only [World.apply, hc, Option.elim_none], rfl⟩
    | some c =>
      obtain ⟨hcommand, hstatement⟩ := plan_runCommand hplan hc
      refine Or.inr ⟨c, hcommand, ?_, ?_, rfl⟩
      · simp only [World.apply, hc, Option.elim_some]
      · simp only [World.apply, hstatement, Option.elim_none]

/-! ## The limit -/

/-- The entry a step appends without a look at the length. -/
def World.unchecked (w : World) : Action → Option EntryId
  | .advance (.retryPublish _) => some (w.run.lastId + 1)
  | .work => if w.worker.toAppend = [] then none else some (w.run.lastId + 1)
  | _ => none

/-- The entry was appended by `Retry` or by a wake. -/
def Unchecked (cfg : Config) (actions : List Action) (entry : EntryId) : Prop :=
  Takes (step cfg) (fun w a => w.unchecked a = some entry) {} actions

instance (cfg : Config) (actions : List Action) (entry : EntryId) :
    Decidable (Unchecked cfg actions entry) :=
  inferInstanceAs (Decidable (Takes _ _ _ _))

/-- What a command but `XADD` leaves of the messages. -/
theorem Command.entries_sublist {F : Type*} {s : Stream F} {now : Time} {c : Command F}
    (hc : ∀ fields, c ≠ .xadd fields) : (c.run now s).entries.Sublist s.entries := by
  cases c with
  | xadd fields => exact absurd rfl (hc fields)
  | xdel id => exact List.filter_sublist
  | xclaim consumer minIdle id =>
    show (s.xclaim consumer minIdle now id).entries.Sublist s.entries
    rw [(s.xclaim_entries consumer minIdle now id).1]
  | xack | xreadgroup => exact List.Sublist.refl _

/-- **The entries appended under the limit never exceed it.** -/
theorem admitted_le {actions : List Action} (hrun : exec (step cfg) {} actions = some w) :
    (w.run.entries.countP fun x => ¬ Unchecked cfg actions x.id) ≤ cfg.queueMaxLength := by
  refine invariant_history
    (fun actions (w : World) =>
      (w.run.entries.countP fun x => ¬ Unchecked cfg actions x.id) ≤ cfg.queueMaxLength)
    (Nat.zero_le _) (fun actions w a w' hbefore ih hstep => ?_) hrun
  -- who was appended unchecked before is so now
  have hmono : ∀ l : List (Entry AnalysisId),
      (l.countP fun x => ¬ Unchecked cfg (actions ++ [a]) x.id) ≤
        l.countP fun x => ¬ Unchecked cfg actions x.id := by
    refine fun l => List.countP_mono_left fun x _ hx => ?_
    rw [decide_eq_true_eq] at hx ⊢
    exact fun hunchecked => hx (takes_concat hbefore hstep (Or.inl hunchecked))
  -- and who is appended unchecked now does not count
  have hadd : ∀ {id}, w.unchecked a = some (w.run.lastId + 1) →
      ((w.run.xadd id).entries.countP fun x => ¬ Unchecked cfg (actions ++ [a]) x.id) ≤
        cfg.queueMaxLength := by
    intro id hnew
    have hlast : Unchecked cfg (actions ++ [a]) (w.run.lastId + 1) :=
      takes_concat hbefore hstep (Or.inr hnew)
    rw [Stream.xadd, List.countP_append, List.countP_singleton,
      if_neg (by simpa using hlast), Nat.add_zero]
    exact (hmono _).trans ih
  have hless : w'.run.entries.Sublist w.run.entries →
      (w'.run.entries.countP fun x => ¬ Unchecked cfg (actions ++ [a]) x.id) ≤
        cfg.queueMaxLength :=
    fun hsub => hsub.countP_le.trans ((hmono _).trans ih)
  rcases step_runCommand hstep with ⟨hsame, -⟩ | ⟨c, hcommand, hafter, -, -⟩
  · exact hless (by rw [hsame])
  rw [hafter] at hless ⊢
  cases hcommand with
  | publish hlength =>
    refine (List.countP_le_length).trans ?_
    show (w.run.entries ++ [_]).length ≤ _
    rw [List.length_append]
    exact hlength
  | retryPublish => exact hadd rfl
  | append hworker => exact hadd (by rw [World.unchecked, if_neg hworker])
  | cancelRemove | xack | xdel | xreadgroup | xclaim =>
    exact hless (Command.entries_sublist nofun)

/-! ## Entries whose job is over -/

/-- The statuses that record an outcome. -/
def AnalysisStatus.isOutcome : AnalysisStatus → Bool
  | .done | .failed | .canceled => true
  | .queued | .waitingForReference | .processing => false

/-- An outcome of the analysis is recorded. -/
def Database.concluded (db : Database) (id : AnalysisId) : Bool :=
  db.analyses.any fun r => r.id = id ∧ r.status.isOutcome

/-- A step records an outcome of the analysis. -/
def Concludes (cfg : Config) (w : World) (a : Action) (id : AnalysisId) : Prop :=
  w.db.concluded id = false ∧
    (stepStatement cfg w a).any fun s => (s.run w.now w.db).concluded id

/-- The entry whose removal a step breaks off: a death between `XACK` and `XDEL`, or a
`Remove` that fails. -/
def World.breaksOff (w : World) : Action → Option EntryId
  | .crash =>
      match w.worker with
      | .runDel entry => some entry
      | _ => none
  | .abort (.cancelRemove _ entry) => some entry
  | _ => none

/-- The entry `Cancel` knows, and is going to remove. -/
def World.withdraws (w : World) : Action → Option EntryId
  | .request (.cancel _ id) => (w.db.analysis id).bind Analysis.queueStreamId
  | _ => none

/-- A step after which an entry whose job has an outcome is neither pending nor about to be
removed: its removal is broken off, it is appended when the outcome is there already, or
the outcome is recorded by somebody who does not know the entry. -/
def LeavesBehind (cfg : Config) (x : Entry AnalysisId) (w : World) (a : Action) : Prop :=
  ¬ w.run.Pending x.id ∧
    (w.breaksOff a = some x.id ∨
      (stepAppends cfg w a = some x.fields ∧ x.id = w.run.lastId + 1 ∧
        w.db.concluded x.fields) ∨
      (Concludes cfg w a x.fields ∧ x ∈ w.run.entries ∧ w.worker.hand ≠ some x ∧
        w.withdraws a ≠ some x.id))

instance (w : World) (a : Action) (id : AnalysisId) : Decidable (Concludes cfg w a id) :=
  inferInstanceAs (Decidable (_ ∧ _))

instance (w : World) (a : Action) : Decidable (LeavesBehind cfg x w a) :=
  inferInstanceAs (Decidable (_ ∧ _))

/-- Somebody is going to remove the entry, if its job is over. -/
def Tracked (x : Entry AnalysisId) (w : World) : Prop :=
  x ∈ w.run.entries → w.db.concluded x.fields → w.run.Pending x.id ∨
    w.worker = .runDel x.id ∨ ∃ id, .cancelRemove id x.id ∈ w.calls

/-- The entry in the worker's hand is pending. -/
structure HandPending (w : World) : Prop where
  ordered : w.run.Ordered
  pending : ∀ y, w.worker.hand = some y → w.run.Pending y.id

theorem HandPending.empty : HandPending {} := ⟨Stream.Ordered.empty, by rintro y ⟨⟩⟩

/-! ## What a step does to a pending entry -/

/-- **A pending entry stays pending** until the worker acknowledges it, or finds that its
message is gone. -/
theorem step_pending (hstep : step cfg w a = some w') {entry : EntryId}
    (h : w.run.Pending entry) :
    w'.run.Pending entry ∨ (w.worker = .runAck entry ∧ a = .work) ∨
      (w.worker = .idle ∧ w.run.xrange entry = none) := by
  rcases step_runCommand hstep with ⟨hsame, -⟩ | ⟨c, hcommand, hafter, -, -⟩
  · rw [hsame]
    exact Or.inl h
  rw [hafter]
  cases hcommand with
  | xack hworker =>
    rename_i acked
    by_cases hid : entry = acked
    · exact Or.inr (Or.inl ⟨hid ▸ hworker, rfl⟩)
    · exact Or.inl (h.xack hid)
  | xreadgroup => exact Or.inl (h.xreadgroup _ _ _)
  | xclaim hworker =>
    cases hrange : w.run.xrange entry with
    | none => exact Or.inr (Or.inr ⟨hworker, rfl⟩)
    | some id =>
      refine Or.inl (h.xclaim (fun hid => ?_) _ _ _)
      rw [← hid]
      exact Option.isSome_of_eq_some hrange
  | publish | retryPublish | append | cancelRemove | xdel => exact Or.inl h

/-- How an entry gets into the worker's hand: it is there, or it is pending by then. -/
theorem plan_hand {y : Entry AnalysisId} (hplan : plan cfg w a = some e)
    (hy : e.worker.hand = some y) : w.worker.hand = some y ∨ (w.apply e).run.Pending y.id := by
  by_cases ha : a.ofApi
  · rw [plan_worker hplan ha] at hy
    exact Or.inl hy
  have hmove := plan_move hplan (by simpa using ha)
  generalize w.worker = worker at hmove
  cases hmove
  case deliver y hnew =>
    cases hy
    exact Or.inr (Stream.pending_of_newEntries (List.mem_of_mem_head? hnew) _ _)
  case reclaimRun d hd _ hrange =>
    cases hy
    obtain ⟨hpending, hid, -⟩ := Stream.mem_of_claimable hd
    have hthere : (w.run.xrange _).isSome := Option.isSome_of_eq_some hrange
    exact Or.inr (Stream.Pending.xclaim ⟨d, hpending, hid⟩ (fun _ => hthere) _ _ _)
  case giveUpRun d hd _ _ =>
    cases hy
    obtain ⟨hpending, hid, -⟩ := Stream.mem_of_claimable hd
    exact Or.inr ⟨d, hpending, hid⟩
  all_goals first
    | exact Or.inl hy
    | cases hy

theorem HandPending.step (h : HandPending w) (hstep : step cfg w a = some w') :
    HandPending w' := by
  constructor
  · rcases step_run hstep with hsame | ⟨c, hrun⟩
    · rw [hsame]
      exact h.ordered
    · rw [hrun]
      exact c.run_ordered h.ordered w.now
  · intro y hy
    have hfrom : w.worker.hand = some y ∨ w'.run.Pending y.id := by
      rcases step_cases hstep with hlife | ⟨e, hplan, rfl⟩
      · rcases (lifecycle_untouched hlife).worker with hw | hw | hw <;> rw [hw] at hy
        · exact Or.inl hy
        · cases hy
        · cases hy
      · exact plan_hand hplan hy
    rcases hfrom with hhand | hpending
    · rcases step_pending hstep (h.pending y hhand) with hpending | ⟨hw, -⟩ | ⟨hw, -⟩
      · exact hpending
      · rw [hw] at hhand
        cases hhand
      · rw [hw] at hhand
        cases hhand
    · exact hpending

/-! ## What a step leaves behind -/

/-- An entry of the stream is one of before, or it is the one the step appends, to a job that
is over or not. -/
theorem step_entry (hstep : step cfg w a = some w') (hx : x ∈ w'.run.entries) :
    x ∈ w.run.entries ∨ (stepAppends cfg w a = some x.fields ∧ x.id = w.run.lastId + 1 ∧
      w'.db = w.db) := by
  rcases step_runCommand hstep with ⟨hsame, -⟩ | ⟨c, hcommand, hafter, hdb, happends⟩
  · exact Or.inl (hsame ▸ hx)
  rw [hafter] at hx
  cases hcommand with
  | publish | retryPublish | append =>
    rcases List.mem_append.mp hx with hx | hx
    · exact Or.inl hx
    · rw [List.mem_singleton.mp hx]
      exact Or.inr ⟨happends, rfl, hdb⟩
  | cancelRemove | xack | xdel | xreadgroup | xclaim =>
    exact Or.inl ((Command.entries_sublist nofun).subset hx)

/-- Deleting a message removes it. -/
theorem notMem_xdel {F : Type*} (s : Stream F) (y : Entry F) : y ∉ (s.xdel y.id).entries := by
  intro hy
  have hne := (List.mem_filter.mp hy).2
  exact of_decide_eq_true hne rfl

/-- **The worker removes the entry it has acknowledged**, unless it dies before. -/
theorem step_runDel (hstep : step cfg w a = some w') (hworker : w.worker = .runDel x.id)
    (hx : x ∈ w'.run.entries) : w'.worker = .runDel x.id ∨ w.breaksOff a = some x.id := by
  rcases step_cases hstep with hlife | ⟨e, hplan, rfl⟩
  · cases a <;> simp only [lifecycle, reduceCtorEq] at hlife
    case sleep =>
      cases hlife
      exact Or.inl hworker
    case enterLoop =>
      split_ifs at hlife
      cases hlife
      exact Or.inl hworker
    case start =>
      rw [hworker] at hlife
      cases hlife
    case crash => exact Or.inr (by rw [World.breaksOff, hworker])
  by_cases ha : a.ofApi
  · exact Or.inl ((plan_worker hplan ha).trans hworker)
  have hmove := plan_move hplan (by simpa using ha)
  rw [hworker] at hmove
  cases hmove
  case runDel => exact absurd hx (notMem_xdel w.run x)
  case raised hraise => cases hraise

/-- **`Cancel` removes the entry it knows**, unless `Remove` fails. -/
theorem step_breaksOff (hstep : step cfg w a = some w') {id : AnalysisId}
    (hcall : .cancelRemove id x.id ∈ w.calls) (hx : x ∈ w'.run.entries) :
    .cancelRemove id x.id ∈ w'.calls ∨ w.breaksOff a = some x.id := by
  rcases step_cases hstep with hlife | ⟨e, hplan, rfl⟩
  · exact Or.inl ((lifecycle_untouched hlife).calls ▸ hcall)
  rcases plan_call hplan hcall with hstays | rfl | rfl
  · exact Or.inl hstays
  · simp only [plan, if_pos hcall, Call.plan, Option.some.injEq] at hplan
    subst hplan
    exact absurd hx (notMem_xdel w.run x)
  · exact Or.inr rfl

/-- A `Cancel` that records an outcome is about to remove the entry it knows. -/
theorem step_withdraws (hstep : step cfg w a = some w') {id : AnalysisId} {entry : EntryId}
    (hconcludes : Concludes cfg w a id) (hentry : w.withdraws a = some entry) :
    ∃ id, .cancelRemove id entry ∈ w'.calls := by
  obtain ⟨-, hrecords⟩ := hconcludes
  cases a with
  | request r =>
    cases r with
    | cancel userId id =>
      have hplan : plan cfg w (.request (.cancel userId id))
          = some (Request.plan cfg w (.cancel userId id)) := rfl
      rw [step_eq_apply hstep hplan]
      rw [stepStatement_eq hplan] at hrecords
      obtain ⟨r, hr, hstored⟩ := Option.bind_eq_some_iff.mp hentry
      simp only [Request.plan, hr, hstored] at hrecords ⊢
      split_ifs at hrecords ⊢ with hguard
      · exact ⟨id, List.mem_cons_self⟩
      · cases hrecords
    | _ => cases hentry
  | _ => cases hentry

/-- **A step keeps track of an entry** that it does not leave behind. -/
theorem Tracked.step (h : Tracked x w) (hhand : HandPending w)
    (hstep : step cfg w a = some w') (hnot : ¬ LeavesBehind cfg x w a) : Tracked x w' := by
  intro hx hover
  rcases step_entry hstep hx with hbefore | ⟨happends, hid, hdb⟩
  · by_cases hpending : w.run.Pending x.id
    · -- its row is dropped only when the worker is about to remove the message
      rcases step_pending hstep hpending with hstays | ⟨hworker, rfl⟩ | ⟨-, hgone⟩
      · exact Or.inl hstays
      · have hplan : plan cfg w .work = some { w.keep with
            run := some (.xack x.id), worker := .runDel x.id } := by
          rw [plan, hworker]
          rfl
        rw [step_eq_apply hstep hplan]
        exact Or.inr (Or.inl rfl)
      · exact absurd rfl (Stream.ne_of_xrange hgone hbefore)
    by_cases hwas : w.db.concluded x.fields = true
    · -- whoever is about to remove the message does, or breaks off
      rcases h hbefore hwas with hp | hworker | ⟨id, hcall⟩
      · exact absurd hp hpending
      · rcases step_runDel hstep hworker hx with hstays | hbroken
        · exact Or.inr (Or.inl hstays)
        · exact absurd ⟨hpending, Or.inl hbroken⟩ hnot
      · rcases step_breaksOff hstep hcall hx with hstays | hbroken
        · exact Or.inr (Or.inr ⟨id, hstays⟩)
        · exact absurd ⟨hpending, Or.inl hbroken⟩ hnot
    · -- the step records the outcome
      rw [Bool.not_eq_true] at hwas
      have hconcludes : Concludes cfg w a x.fields := by
        refine ⟨hwas, ?_⟩
        rw [step_db hstep] at hover
        cases hs : stepStatement cfg w a with
        | none =>
          rw [hs, Option.elim_none, hwas] at hover
          cases hover
        | some s =>
          rw [hs, Option.elim_some] at hover
          exact hover
      by_cases hwithdraws : w.withdraws a = some x.id
      · exact Or.inr (Or.inr (step_withdraws hstep hconcludes hwithdraws))
      · refine absurd ⟨hpending, Or.inr (Or.inr ⟨hconcludes, hbefore, ?_, hwithdraws⟩)⟩ hnot
        exact fun hheld => hpending (hhand.pending x hheld)
  · -- a message that is appended for a job that has ended
    have hnew : ¬ w.run.Pending x.id := by
      rintro ⟨d, hd, hdx⟩
      have hle := (hhand.ordered.pending_le d hd).trans hhand.ordered.delivered_le
      omega
    rw [hdb] at hover
    exact absurd ⟨hnew, Or.inr (Or.inl ⟨happends, hid, hover⟩)⟩ hnot

/-! ## Every run -/

/-- No request is in flight, and the worker is between two jobs or down. -/
def World.AtRest (w : World) : Prop := w.calls = [] ∧ (w.worker = .idle ∨ w.worker = .down)

instance (w : World) : Decidable w.AtRest := inferInstanceAs (Decidable (_ ∧ _))

/-- Some step of the run left the entry behind. -/
def LeftBehind (cfg : Config) (actions : List Action) (x : Entry AnalysisId) : Prop :=
  Takes (step cfg) (LeavesBehind cfg x) {} actions

instance (cfg : Config) (actions : List Action) : Decidable (LeftBehind cfg actions x) :=
  inferInstanceAs (Decidable (Takes _ _ _ _))

/-- The length of the stream as a queue length: beyond the limit there is only what was
appended without a look at it, and when nothing is in flight the stream holds the jobs
without an outcome, what is yet to be acknowledged, and what was left behind. -/
structure StreamLength (cfg : Config) (actions : List Action) (w : World) : Prop where
  limit : w.run.xlen ≤
    cfg.queueMaxLength + w.run.entries.countP fun x => Unchecked cfg actions x.id
  counted : w.AtRest → w.run.xlen =
    (w.run.entries.countP fun x => ¬ w.db.concluded x.fields) +
      w.run.entries.countP fun x => w.db.concluded x.fields ∧
        (w.run.Pending x.id ∨ LeftBehind cfg actions x)

/-- **What is kept track of over a run**: every entry no step left behind. -/
theorem tracked_of_run {actions : List Action} (hrun : exec (step cfg) {} actions = some w)
    (hkept : ¬ LeftBehind cfg actions x) : Tracked x w := by
  have hmeets : Meets (step cfg) (fun w a => ¬ LeavesBehind cfg x w a) {} actions :=
    not_not.mp hkept
  have hboth : HandPending w ∧ Tracked x w :=
    invariant (fun w => HandPending w ∧ Tracked x w)
      (fun s a s' h hcond hstep => ⟨h.1.step hstep, h.2.step h.1 hstep hcond⟩)
      ⟨HandPending.empty, fun hx => absurd hx List.not_mem_nil⟩ hmeets hrun
  exact hboth.2

/-- **The length of `analyses:run`.**  In every run the stream is longer than its maximum
only by entries that `Retry` and the wakes appended; and when nothing is in flight it holds
the entries whose job has no outcome, those that are still to be acknowledged, and those a
step of the run left behind. -/
theorem streamLength (cfg : Config) (actions : List Action) (w : World)
    (hrun : exec (step cfg) {} actions = some w) : StreamLength cfg actions w := by
  constructor
  · have hadmitted := admitted_le hrun
    have hsplit := List.length_eq_countP_add_countP
      (fun x : Entry AnalysisId => decide (Unchecked cfg actions x.id)) (l := w.run.entries)
    have hnot : (w.run.entries.countP fun x => ¬ Unchecked cfg actions x.id) =
        w.run.entries.countP fun x => ¬ decide (Unchecked cfg actions x.id) = true :=
      List.countP_congr fun x _ => by simp
    show w.run.entries.length ≤ _
    omega
  · rintro ⟨hcalls, hworker⟩
    have hover : (w.run.entries.countP fun x => w.db.concluded x.fields) =
        w.run.entries.countP fun x => w.db.concluded x.fields ∧
          (w.run.Pending x.id ∨ LeftBehind cfg actions x) := by
      refine List.countP_congr fun x hx => ?_
      rw [decide_eq_true_eq, iff_self_and]
      intro hconcluded
      by_contra hneither
      rw [not_or] at hneither
      rcases tracked_of_run hrun hneither.2 hx hconcluded with hp | hdel | ⟨id, hcall⟩
      · exact hneither.1 hp
      · rw [hdel] at hworker
        rcases hworker with h | h <;> cases h
      · rw [hcalls] at hcall
        cases hcall
    have hsplit := List.length_eq_countP_add_countP
      (fun x : Entry AnalysisId => w.db.concluded x.fields) (l := w.run.entries)
    have hnot : (w.run.entries.countP fun x => ¬ w.db.concluded x.fields) =
        w.run.entries.countP fun x => ¬ w.db.concluded x.fields = true :=
      List.countP_congr fun x _ => by simp
    show w.run.entries.length = _
    omega

/-! ## Two runs -/

/-- The worker dies after `XACK`. -/
def diesBeforeXdel : List Action := completesFirstAnalysis ++ [.work, .crash]

/-- Two analyses wait for the first song and are woken. -/
def wakesTwo : List Action :=
  startsFirstSong ++ enqueuesWaiting 7 0 ++ enqueuesWaiting 8 0 ++ readiesFirstSong ++
    [.wake [1, 2], .work, .work]

theorem streamLength_diesBeforeXdel :
    ∃ w, exec (step defaultConfig) {} diesBeforeXdel = some w ∧ w.AtRest ∧
      StreamLength defaultConfig diesBeforeXdel w := by
  have hruns : (exec (step defaultConfig) {} diesBeforeXdel).map (fun w => decide w.AtRest)
      = some true := by
    decide +kernel
  obtain ⟨w, hw, hquiet⟩ := Option.map_eq_some_iff.mp hruns
  exact ⟨w, hw, of_decide_eq_true hquiet, streamLength defaultConfig diesBeforeXdel w hw⟩

/-- A wake of two goes over a limit of one; the entry of a finished analysis stays when the
worker dies before `XDEL`. -/
theorem not_forall_trueLength :
    (¬ ∀ (cfg : Config) (actions : List Action) (w : World),
      exec (step cfg) {} actions = some w → w.run.xlen ≤ cfg.queueMaxLength) ∧
    ¬ ∀ (cfg : Config) (actions : List Action) (w : World),
      exec (step cfg) {} actions = some w → w.AtRest →
        w.run.xlen = w.run.entries.countP fun x => ¬ w.db.concluded x.fields := by
  constructor
  · intro h
    have hruns : (exec (step { defaultConfig with queueMaxLength := 1 }) {} wakesTwo).map
        (fun w => w.run.xlen) = some 2 := by
      decide +kernel
    obtain ⟨w, hw, hlength⟩ := Option.map_eq_some_iff.mp hruns
    have hle := h { defaultConfig with queueMaxLength := 1 } wakesTwo w hw
    rw [hlength] at hle
    exact absurd hle (by decide)
  · intro h
    have hruns : (exec (step defaultConfig) {} diesBeforeXdel).map (fun w =>
        (decide w.AtRest, w.run.xlen, w.run.entries.countP fun x => ¬ w.db.concluded x.fields))
        = some (true, 1, 0) := by
      decide +kernel
    obtain ⟨w, hw, hfacts⟩ := Option.map_eq_some_iff.mp hruns
    obtain ⟨hquiet, hlength, hcount⟩ : decide w.AtRest = true ∧ w.run.xlen = 1 ∧
        (w.run.entries.countP fun x => ¬ w.db.concluded x.fields) = 0 := by
      simpa only [Prod.mk.injEq] using hfacts
    have heq := h defaultConfig diesBeforeXdel w hw (of_decide_eq_true hquiet)
    rw [hlength, hcount] at heq
    cases heq

end VocalCoach
