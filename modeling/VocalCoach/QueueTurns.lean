/-
# Taking turns in the queue

The order in which entries are appended, from the order of the steps that draw and append.
`Enqueue` and `Retry` draw a fresh `queue_seq` when they queue the row, so its entry belongs
behind all others; it gets there if nobody else draws or wakes before its `XADD`.  A wake
draws nothing: the analyses keep the `queue_seq` they began to wait with, and `RETURNING`
lists them in any order, so it must come while no later one is queued, in the order of their
`queue_seq`s.

`QueuesInTurn` says this of the schedule, `InTurn` is the invariant that carries it, and
`queue_servedInOrder` the result.
-/
import VocalCoach.QueueOrder

namespace VocalCoach

open RedisStream Machine

variable {cfg : Config} {w w' : World} {a : Action} {e : Effect}

/-! ## The condition on the schedule -/

/-- The batch a step appends for a song that is ready. -/
def Action.wakes : Action → Option (List AnalysisId)
  | .wake ids => some ids
  | _ => none

/-- Every woken analysis has a larger `queue_seq` than every queued one, and than those before
it in the batch. -/
def World.WokenInOrder (w : World) (ids : List AnalysisId) : Prop :=
  (∀ id ∈ ids, ∀ r ∈ w.db.analyses, r.id = id → ∀ t ∈ w.db.analyses, t.status = .queued →
      t.queueSeq < r.queueSeq) ∧
    ids.Pairwise fun i j => ∀ r ∈ w.db.analyses, r.id = i → ∀ t ∈ w.db.analyses, t.id = j →
      r.queueSeq < t.queueSeq

instance (w : World) (ids : List AnalysisId) : Decidable (w.WokenInOrder ids) :=
  inferInstanceAs (Decidable (_ ∧ _))

/-- An analysis is queued only while no other is yet to be appended, and a wake is in order. -/
def QueuesInTurn (cfg : Config) (w : World) (a : Action) : Prop :=
  KeepsTickets w a ∧ (w.issued cfg a ≠ [] → w.unsent = []) ∧ ∀ ids ∈ a.wakes, w.WokenInOrder ids

instance (cfg : Config) (w : World) (a : Action) : Decidable (QueuesInTurn cfg w a) :=
  inferInstanceAs (Decidable (_ ∧ _ ∧ _))

/-! ## What a step issues -/

/-- The wake, and the batch it appends. -/
theorem plan_wakes (hplan : plan cfg w a = some e) {songId : SongId}
    (hs : e.statement = some (.wakeWaitingForReference songId)) :
    ∃ ids, a = .wake ids ∧ ids.Perm (w.db.newlyQueued songId) := by
  have ha : a.ofApi = false := by
    rw [plan_ofApi hplan hs]
    rfl
  have hmove := plan_move hplan ha
  generalize w.worker = worker at hmove
  cases hmove <;> cases hs
  case wake.refl hperm => exact ⟨_, rfl, hperm⟩

/-- **What is queued comes behind everything queued before**: by a fresh `queue_seq`, or by
the order of the wake. -/
theorem issued_behind (hsound : w.Sound) (hstep : step cfg w a = some w')
    (hwoken : ∀ ids ∈ a.wakes, w.WokenInOrder ids) {r : Analysis} (hr : r ∈ w'.db.analyses)
    (hissued : r.id ∈ w.issued cfg a) {t : Analysis} (ht : t ∈ w.db.analyses)
    (hq : t.status = .queued) : t.queueSeq < r.queueSeq := by
  rw [step_db hstep] at hr
  rw [World.issued] at hissued
  cases hs : stepStatement cfg w a with
  | none =>
    rw [hs] at hissued
    cases hissued
  | some s =>
    rw [hs, Option.elim_some] at hr hissued
    obtain ⟨e, hplan, hstatement⟩ := Option.bind_eq_some_iff.mp hs
    have hlt := hsound.db.seq_lt t ht
    rcases mem_run.mp hr with ⟨b, hb, hbr⟩ | hins
    · rcases onRow_queueSeq hbr with hseq | ⟨hseq, -⟩
      · have hid := onRow_id hbr
        cases s <;> simp only [Statement.issues, List.not_mem_nil] at hissued
        case create id _ _ status _ =>
          -- the row of a new id is no row of before
          cases status <;> simp only [List.mem_singleton, List.not_mem_nil] at hissued
          obtain ⟨hnew, -⟩ := plan_newId hplan hstatement rfl
          have hfresh := hsound.fresh b hb
          rw [← hid, hissued, hnew] at hfresh
          exact absurd hfresh (Nat.lt_irrefl _)
        case retry id userId =>
          split_ifs at hissued with hany
          · obtain ⟨c, hc, hguard⟩ := List.any_eq_true.mp hany
            have hcb : c.id = b.id :=
              (Analysis.retryable_iff.mp hguard).1.trans ((List.mem_singleton.mp hissued).symm.trans hid)
            obtain rfl := hsound.db.eq_of_id hc hb hcb
            simp only [Statement.onRow, hguard, if_true, Option.some.injEq] at hbr
            rw [← hbr]
            exact hlt
          · cases hissued
        case wakeWaitingForReference songId =>
          obtain ⟨ids, rfl, hperm⟩ := plan_wakes hplan hstatement
          rw [hseq]
          exact (hwoken ids rfl).1 r.id (hperm.mem_iff.mpr hissued) b hb hid.symm t ht hq
      · rw [hseq]
        exact hlt
    · rw [(inserted_id hins).2.1]
      exact hlt

/-- What a step issues or appends leaves of the tickets to come. -/
theorem TicketStep.unsent_cases {s : Option Statement} {added : Option AnalysisId}
    (h : TicketStep w w' s added) :
    w'.unsent.Perm (s.elim [] (Statement.issues w.db) ++ w.unsent) ∨
      s.elim [] (Statement.issues w.db) = [] ∧ ∃ id, w.unsent.Perm (id :: w'.unsent) := by
  cases h with
  | issue hunsent => exact Or.inl hunsent
  | send hunsent | undo hunsent => exact Or.inr ⟨rfl, _, hunsent⟩
  | withdraw _ hunsent => exact Or.inl hunsent
  | finish _ hunsent _ _ hkind => rcases hkind with rfl | ⟨_, rfl⟩ <;> exact Or.inl hunsent

/-- A new entry takes its ticket from those to come, and nothing is issued. -/
theorem TicketStep.sent_cases {s : Option Statement} {added : Option AnalysisId}
    (h : TicketStep w w' s added) {x : Entry AnalysisId} (hx : x ∈ w'.sent) :
    x ∈ w.sent ∨ s = none ∧ added = some x.fields ∧ w.unsent.Perm (x.fields :: w'.unsent) := by
  cases h with
  | issue _ hsent | undo _ hsent => exact Or.inl (hsent ▸ hx)
  | send hunsent hsent =>
    rw [hsent, List.mem_append, List.mem_singleton] at hx
    rcases hx with hx | rfl
    · exact Or.inl hx
    · exact Or.inr ⟨rfl, rfl, hunsent⟩
  | withdraw _ _ hsent | finish _ _ hsent =>
    rw [hsent] at hx
    exact Or.inl (List.mem_of_mem_filter hx)

/-! ## The invariant -/

/-- The queued row of the one id comes before that of the other. -/
def World.Before (w : World) (i j : AnalysisId) : Prop :=
  ∀ r ∈ w.db.analyses, r.id = i → r.status = .queued →
    ∀ t ∈ w.db.analyses, t.id = j → t.status = .queued → r.queueSeq < t.queueSeq

/-- A request that is to append an analysis is alone with it, a batch is in order, and no
analysis yet to be appended comes before one that is in the stream. -/
structure World.InTurn (w : World) : Prop where
  tickets : TicketsSound w
  alone : ∀ c ∈ w.calls, ∀ id, c.owes = some id → w.unsent = [id]
  batch : w.worker.toAppend.Pairwise w.Before
  front : ∀ id ∈ w.unsent, ∀ r ∈ w.db.analyses, r.id = id → r.status = .queued →
    ∀ t ∈ w.db.analyses, t.status = .queued → r.queueSeq < t.queueSeq → ∀ x ∈ w.sent,
      x.fields ≠ t.id

theorem World.InTurn.empty : World.InTurn {} where
  tickets := TicketsSound.empty
  alone := by simp
  batch := List.Pairwise.nil
  front := by rintro id hid r ⟨⟩

theorem tickets_pos_of_unsent {id : AnalysisId} (hid : id ∈ w.unsent) : 0 < w.tickets id := by
  have hcount := List.count_pos_iff.mpr hid
  rw [World.tickets]
  omega

/-- Two who come one before the other still do, as long as both have a ticket. -/
theorem World.Before.step {i j : AnalysisId} (h : w.Before i j) (htickets : TicketsSound w)
    (hkeep : KeepsTickets w a) (hstep : step cfg w a = some w') (hi : 0 < w.tickets i)
    (hj : 0 < w.tickets j) : w'.Before i j := by
  rintro r hr rfl hrq t ht rfl htq
  obtain ⟨b, hb, hbid, hbq, hbseq⟩ := row_of_ticket htickets hkeep hstep hr hrq hi
  obtain ⟨c, hc, hcid, hcq, hcseq⟩ := row_of_ticket htickets hkeep hstep ht htq hj
  rw [← hbseq, ← hcseq]
  exact h b hb hbid hbq c hc hcid hcq

section Step

variable (h : w.InTurn) (hcond : QueuesInTurn cfg w a) (hstep : step cfg w a = some w')

include h hcond hstep

theorem World.InTurn.alone_step {c : Call} (hc : c ∈ w'.calls) {id : AnalysisId}
    (howes : c.owes = some id) : w'.unsent = [id] := by
  have hmem : id ∈ w'.unsent := World.mem_unsent.mpr (Or.inl ⟨c, hc, howes⟩)
  have hcases := (h.tickets.ticket hcond.1 hstep).unsent_cases
  rw [← World.issued] at hcases
  have hnew : (∃ d ∈ w.calls, d.owes = some id) ∨ w.issued cfg a = [id] := by
    rcases step_cases hstep with hlife | ⟨e, hplan, rfl⟩
    · exact Or.inl ⟨c, (lifecycle_untouched hlife).calls ▸ hc, howes⟩
    · rw [World.issued, stepStatement_eq hplan]
      exact plan_owes hplan hc howes
  rcases hnew with ⟨d, hd, hdid⟩ | hissued
  · -- it was alone before, so nothing is issued and it is still there
    have hone := h.alone d hd id hdid
    rcases hcases with hperm | ⟨-, i, hperm⟩
    · have hnone : w.issued cfg a = [] := by
        by_contra hissued
        rw [hcond.2.1 hissued] at hone
        cases hone
      rw [hnone, hone] at hperm
      exact List.perm_singleton.mp hperm
    · rw [hone] at hperm
      have hrest := List.cons.inj (List.singleton_perm.mp hperm)
      rw [← hrest.2] at hmem
      cases hmem
  · have hnone : w.unsent = [] := hcond.2.1 (by rw [hissued]; exact List.cons_ne_nil _ _)
    rcases hcases with hperm | ⟨-, i, hperm⟩
    · rw [hissued, hnone, List.append_nil] at hperm
      exact List.perm_singleton.mp hperm
    · rw [hnone] at hperm
      cases (List.nil_perm.mp hperm)

theorem World.InTurn.batch_step : w'.worker.toAppend.Pairwise w'.Before := by
  have hkept : w.worker.toAppend.Pairwise w'.Before := by
    refine h.batch.imp_of_mem fun {i j} hi hj hbefore => ?_
    exact hbefore.step h.tickets hcond.1 hstep
      (tickets_pos_of_unsent (World.mem_unsent.mpr (Or.inr hi)))
      (tickets_pos_of_unsent (World.mem_unsent.mpr (Or.inr hj)))
  rcases step_cases hstep with hlife | ⟨e, hplan, rfl⟩
  · rcases (lifecycle_untouched hlife).worker with hw | hw | hw <;> rw [hw]
    · exact hkept
    · exact List.Pairwise.nil
    · exact List.Pairwise.nil
  · rcases plan_toAppend hplan with hsub | ⟨songId, hs, ha, -⟩
    · exact hkept.sublist hsub
    · -- a wake keeps every `queue_seq`
      have hrow : ∀ r ∈ (w.apply e).db.analyses, ∃ b ∈ w.db.analyses, b.id = r.id ∧
          b.queueSeq = r.queueSeq := by
        intro r hr
        rw [World.apply, hs] at hr
        rcases mem_run.mp (show r ∈ (Statement.run w.now w.db
          (.wakeWaitingForReference songId)).analyses from hr) with ⟨b, hb, hbr⟩ | hins
        · rcases onRow_queueSeq hbr with hseq | ⟨-, _, _, -, hretry | hretry⟩
          · exact ⟨b, hb, (onRow_id hbr).symm, hseq.symm⟩
          · cases hretry
          · cases hretry
        · cases hins
      have hwoken := (hcond.2.2 e.worker.toAppend (ha ▸ rfl)).2
      refine hwoken.imp fun {i j} hbefore r hr hri _ t ht htj _ => ?_
      obtain ⟨b, hb, hbid, hbseq⟩ := hrow r hr
      obtain ⟨c, hc, hcid, hcseq⟩ := hrow t ht
      rw [← hbseq, ← hcseq]
      exact hbefore b hb (hbid.trans hri) c hc (hcid.trans htj)

omit hcond in
/-- Who is appended comes before all who are yet to be. -/
theorem World.InTurn.appended_first {id : AnalysisId} (happends : stepAppends cfg w a = some id)
    (hnone : stepStatement cfg w a = none) (hperm : w.unsent.Perm (id :: w'.unsent))
    {j : AnalysisId} (hj : j ∈ w'.unsent) : w.Before id j := by
  have halone : w.unsent = [id] → False := by
    intro hone
    rw [hone] at hperm
    rw [← (List.cons.inj (List.singleton_perm.mp hperm)).2] at hj
    cases hj
  obtain ⟨e, hplan, hadded⟩ := Option.bind_eq_some_iff.mp happends
  have hrun : e.run = some (.xadd id) := by
    obtain ⟨c, hc, hid⟩ := Option.bind_eq_some_iff.mp hadded
    cases c <;> cases hid
    exact hc
  obtain rfl := step_eq_apply hstep hplan
  rcases plan_xadd hplan hrun with ⟨c, hc, howes⟩ | hhead
  · exact (halone (h.alone c hc id howes)).elim
  · rcases World.mem_unsent.mp hj with ⟨c, hc, howes⟩ | hrest
    · -- a request that owes one would be alone with it
      rcases plan_owes hplan hc howes with ⟨d, hd, hdid⟩ | hissues
      · have hone := h.alone d hd j hdid
        have hmem : id ∈ w.unsent := World.mem_unsent.mpr (Or.inr (hhead ▸ List.mem_cons_self))
        rw [hone, List.mem_singleton] at hmem
        exact (halone (hmem ▸ hone)).elim
      · rw [← stepStatement_eq hplan, hnone] at hissues
        cases hissues
    · have hbatch := h.batch
      rw [hhead] at hbatch
      exact List.rel_of_pairwise_cons hbatch hrest

theorem World.InTurn.front_step {id : AnalysisId} (hid : id ∈ w'.unsent) {r : Analysis}
    (hr : r ∈ w'.db.analyses) (hrid : r.id = id) (hrq : r.status = .queued) {t : Analysis}
    (ht : t ∈ w'.db.analyses) (htq : t.status = .queued) (hlt : r.queueSeq < t.queueSeq)
    {x : Entry AnalysisId} (hx : x ∈ w'.sent) : x.fields ≠ t.id := by
  intro hxt
  have hticket := h.tickets.ticket hcond.1 hstep
  rcases hticket.sent_cases hx with hx | ⟨hnone, happends, hperm⟩
  · obtain ⟨c, hc, hcid, hcq, hcseq⟩ := row_of_sent h.tickets hcond.1 hstep ht htq hx hxt
    by_cases hissued : r.id ∈ w.issued cfg a
    · have hbehind := issued_behind h.tickets.sound hstep hcond.2.2 hr hissued hc hcq
      omega
    · have hold : id ∈ w.unsent := by
        rcases step_unsent hstep hid with hold | hnew
        · exact hold
        · exact absurd (hrid ▸ hnew) hissued
      obtain ⟨b, hb, hbid, hbq, hbseq⟩ := row_of_ticket h.tickets hcond.1 hstep hr hrq
        (hrid.symm ▸ tickets_pos_of_unsent hold)
      exact h.front id hold b hb (hbid.trans hrid) hbq c hc hcq (by omega) x hx (hxt.trans hcid.symm)
  · -- the one just appended comes before all who are yet to be
    have hbefore := h.appended_first hstep happends hnone hperm hid
    have hbefore' := hbefore.step h.tickets hcond.1 hstep
      (tickets_pos_of_unsent (hperm.mem_iff.mpr List.mem_cons_self))
      (tickets_pos_of_unsent (hperm.mem_iff.mpr (List.mem_cons_of_mem _ hid)))
    have hgt := hbefore' t ht hxt.symm htq r hr hrid hrq
    omega

/-- **Every step keeps the queue in turn.** -/
theorem World.InTurn.step : w'.InTurn where
  tickets := h.tickets.step hcond.1 hstep
  alone := fun _ hc _ howes => h.alone_step hcond hstep hc howes
  batch := h.batch_step hcond hstep
  front := fun _ hid _ hr hrid hrq _ ht htq hlt _ hx =>
    h.front_step hcond hstep hid hr hrid hrq ht htq hlt hx

end Step

/-- **Who takes turns appends in order.** -/
theorem World.InTurn.servesInOrder (h : w.InTurn) (hcond : QueuesInTurn cfg w a) :
    ServesInOrder cfg w a := by
  refine ⟨hcond.1, fun id happends r hr hrid hrq t ht htq hlt x hx => ?_⟩
  obtain ⟨e, hplan, hadded⟩ := Option.bind_eq_some_iff.mp happends
  obtain ⟨c, hc, hid⟩ := Option.bind_eq_some_iff.mp hadded
  cases c <;> cases hid
  exact h.front id (mem_unsent_of_xadd hplan hc) r hr hrid hrq t ht htq hlt x hx

/-! ## Every run -/

/-- **When the positions tell the order of service.**  In every run from the empty system in
which `Enqueue`, `Retry` and the wakes take turns from the draw to the append, no woken
analysis comes before a queued one, and nobody fails with an analysis yet to be appended or
numbered, every entry is appended in order; and where every entry is, every state without a
request or a wake in flight serves the queued analyses in the order shown. -/
theorem queue_servedInOrder (cfg : Config) :
    (∀ actions, Meets (step cfg) (QueuesInTurn cfg) {} actions →
        Meets (step cfg) (ServesInOrder cfg) {} actions) ∧
      ∀ (actions : List Action) (w : World), Meets (step cfg) (ServesInOrder cfg) {} actions →
        exec (step cfg) {} actions = some w → w.calls = [] → w.worker.toAppend = [] →
        ServedInOrder w := by
  constructor
  · intro actions hmeets
    exact meets_of_invariant World.InTurn (fun s a s' h hcond hs => h.step hcond hs)
      (fun s a _ h hcond _ => h.servesInOrder hcond) World.InTurn.empty hmeets
  · intro actions w hmeets hrun hcalls happend
    exact servedInOrder_of_meets hmeets hrun hcalls happend

/-! ## Two runs -/

/-- An analysis waits for the first song and is woken, another one is enqueued, the first one
fails and its owner retries it. -/
def wokenThenRetried : List Action :=
  startsFirstSong ++ enqueuesWaiting 7 0 ++ readiesFirstSong ++
    [.wake [1], .work, .work, .work, .work] ++ enqueuesReady 8 0 2 2 ++
    [.deliver, .work, .work, .work, .entryFails "NO_VOICE_DETECTED", .work, .work, .work,
     .request (.retry 7 1), .advance (.retrySong 7 1 0), .advance (.retryLength 7 1),
     .advance (.retryUpdate 7 1), .advance (.retryPublish 1), .advance (.setStreamId 1 3),
     .advance (.recalculate 1)]

def retriedBehind : World := (exec (step defaultConfig) {} wokenThenRetried).get (by decide +kernel)

/-- The retried analysis is served last, as it is shown. -/
theorem queue_servedInOrder_wokenThenRetried :
    ServedInOrder retriedBehind ∧
      retriedBehind.db.queue.map Analysis.id = [2, 1] ∧
      retriedBehind.sent.map Entry.fields = [2, 1] :=
  ⟨(queue_servedInOrder defaultConfig).2 wokenThenRetried retriedBehind
    ((queue_servedInOrder defaultConfig).1 wokenThenRetried (by decide +kernel))
    (Option.some_get _).symm (by decide +kernel) (by decide +kernel), by decide +kernel⟩

/-- `Enqueue` for a ready song up to its `Create`. -/
def createsReady (userId : UserId) (songId : SongId) : List Action :=
  [.request (.enqueue userId songId .clean), .advance (.enqueueLength userId songId .clean),
   .advance (.enqueueCreate userId songId .clean true)]

/-- The rest of it: `XADD`, `SetQueueStreamID`, `RecalculatePositions`. -/
def publishesReady (id : AnalysisId) (entry : EntryId) : List Action :=
  [.advance (.enqueuePublish id), .advance (.setStreamId id entry), .advance (.recalculate id)]

/-- The first row created is the second entry appended. -/
def enqueuesCrossing : List Action :=
  preparesFirstSong ++ createsReady 7 0 ++ createsReady 8 0 ++ publishesReady 2 1 ++
    publishesReady 1 2

/-- The analysis at position 1 is served second. -/
theorem not_forall_servedInOrder :
    ¬ ∀ (actions : List Action) (w : World), exec (step defaultConfig) {} actions = some w →
      w.calls = [] → w.worker = .idle → ServedInOrder w := by
  intro h
  have hrun : (exec (step defaultConfig) {} enqueuesCrossing).map (fun w =>
      decide (w.calls = [] ∧ w.worker = .idle ∧ ¬ ServedInOrder w)) = some true := by
    decide +kernel
  obtain ⟨w, hw, htrue⟩ := Option.map_eq_some_iff.mp hrun
  obtain ⟨hcalls, hidle, hcrossing⟩ := of_decide_eq_true htrue
  exact hcrossing (h enqueuesCrossing w hw hcalls hidle)

end VocalCoach
