/-
# Queue positions and the order of service

Users are shown positions by `queue_seq`, which Postgres draws when a row is inserted or
retried; the worker serves entries in the order of their `XADD`s.  Nothing ties the two
together: the row may be numbered long before its entry is appended, and a woken analysis
keeps the number it got when it began to wait.

They agree as long as every entry is appended while no queued analysis with a larger
`queue_seq` has one (`servedInOrder_of_meets`).
-/
import VocalCoach.Positions
import VocalCoach.TicketsSound

namespace VocalCoach

open RedisStream Machine

variable {cfg : Config} {w w' : World} {a : Action} {e : Effect}

/-! ## Positions grow with `queue_seq` -/

/-- The positions there are order the queued rows as their `queue_seq`s do. -/
def Database.PositionsMonotone (db : Database) : Prop :=
  ∀ r ∈ db.analyses, r.status = .queued → ∀ t ∈ db.analyses, t.status = .queued →
    ∀ p ∈ r.queuePosition, ∀ q ∈ t.queuePosition, r.queueSeq < t.queueSeq → p < q

theorem mem_recalculatePositions {db : Database} {r : Analysis}
    (hr : r ∈ db.recalculatePositions.analyses) (hq : r.status = .queued) :
    r.queuePosition = some (db.rowNumber r) ∧
      ∃ b ∈ db.analyses, b.status = .queued ∧ b.queueSeq = r.queueSeq := by
  obtain ⟨b, hb, hbr⟩ := mem_updateAnalyses.mp hr
  by_cases hbq : b.status = .queued
  · simp only [hbq, decide_true, if_true] at hbr
    subst hbr
    exact ⟨rfl, b, hb, hbq, rfl⟩
  · simp only [hbq, decide_false, Bool.false_eq_true, if_false] at hbr
    exact absurd (hbr ▸ hq) hbq

/-- Renumbering orders all queued rows. -/
theorem positionsMonotone_recalculatePositions (db : Database) :
    db.recalculatePositions.PositionsMonotone := by
  intro r hr hrq t ht htq p hp q hq hlt
  obtain ⟨hpos, b, hb, hbq, hseq⟩ := mem_recalculatePositions hr hrq
  obtain ⟨hpos', -⟩ := mem_recalculatePositions ht htq
  rw [hpos, Option.mem_some_iff] at hp
  rw [hpos', Option.mem_some_iff] at hq
  have hrank := Ranking.rank_lt_rank Analysis.queueSeq (Database.mem_queue.mpr ⟨hb, hbq⟩)
    (hseq ▸ hlt : b.queueSeq < t.queueSeq)
  rw [← hp, ← hq, Database.rowNumber_eq_rank, Database.rowNumber_eq_rank]
  simp only [Ranking.rank, hseq] at hrank ⊢
  omega

/-- The statements that renumber the queue. -/
def Statement.renumbers : Statement → Bool
  | .recalculatePositions | .wakeWaitingForReference _ => true
  | _ => false

/-- Without renumbering, a queued row with a position had it before, at the same place. -/
theorem onRow_position {now : Time} {db : Database} {s : Statement} {b r : Analysis}
    (h : s.onRow now db b = some r) (hs : s.renumbers = false) (hq : r.status = .queued) :
    (b.status = .queued ∧ b.queueSeq = r.queueSeq ∧ b.queuePosition = r.queuePosition) ∨
      (r.queuePosition = none ∧ ∃ id userId, s = .retry id userId ∧ b.retryable id userId) := by
  cases s <;> simp only [Statement.renumbers, Bool.true_eq_false] at hs <;>
    simp only [Statement.onRow, Option.some.injEq, Option.ite_none_left_eq_some] at h
  case retry id userId =>
    subst h
    split_ifs at hq ⊢ with hguard
    · exact Or.inr ⟨rfl, id, userId, rfl, hguard⟩
    · exact Or.inl ⟨hq, rfl, rfl⟩
  case delete | deleteSong =>
    obtain ⟨-, rfl⟩ := h
    exact Or.inl ⟨hq, rfl, rfl⟩
  case create | createSong | retryPrep | markPrepProcessing | savePrepStageProgress
      | markPrepReady | markPrepFailed =>
    subst h
    exact Or.inl ⟨hq, rfl, rfl⟩
  case setQueueStreamId | saveStageProgress =>
    subst h
    split_ifs at hq ⊢ <;> exact Or.inl ⟨hq, rfl, rfl⟩
  all_goals
    subst h
    split_ifs at hq ⊢
    · cases hq
    · exact Or.inl ⟨hq, rfl, rfl⟩

/-- **Every statement keeps the positions monotone.** -/
theorem Database.PositionsMonotone.run {now : Time} {db : Database} (h : db.PositionsMonotone)
    (s : Statement) : (s.run now db).PositionsMonotone := by
  by_cases hs : s.renumbers
  · cases s <;> simp only [Statement.renumbers, Bool.false_eq_true] at hs
    · exact positionsMonotone_recalculatePositions _
    · exact positionsMonotone_recalculatePositions _
  · rw [Bool.not_eq_true] at hs
    -- a queued row with a position is one of before
    have hold : ∀ r ∈ (s.run now db).analyses, r.status = .queued → ∀ p ∈ r.queuePosition,
        ∃ b ∈ db.analyses, b.status = .queued ∧ b.queueSeq = r.queueSeq ∧ p ∈ b.queuePosition := by
      intro r hr hq p hp
      rcases mem_run.mp hr with ⟨b, hb, hbr⟩ | hins
      · rcases onRow_position hbr hs hq with ⟨hbq, hseq, hpos⟩ | ⟨hnone, -⟩
        · exact ⟨b, hb, hbq, hseq, hpos ▸ hp⟩
        · rw [hnone] at hp
          cases hp
      · cases s <;> simp only [Statement.inserted, List.mem_singleton, List.not_mem_nil] at hins
        rw [hins] at hp
        cases hp
    intro r hr hrq t ht htq p hp q hq hlt
    obtain ⟨b, hb, hbq, hseq, hp'⟩ := hold r hr hrq p hp
    obtain ⟨c, hc, hcq, hseq', hq'⟩ := hold t ht htq q hq
    exact h b hb hbq c hc hcq p hp' q hq' (by omega)

/-! ## Positions to come -/

/-- A request after which the queued row of the id has a position. -/
def Call.numbers (id : AnalysisId) : Call → Bool
  | .enqueuePublish i | .enqueueRollBack i | .retryPublish i | .setStreamId i _ => i = id
  | .recalculate _ => true
  | _ => false

theorem Call.settles_of_numbers {id : AnalysisId} {c : Call} (h : c.numbers id) : c.settles := by
  cases c <;> first | rfl | cases h

/-- What becomes of a request that will number a row when it takes its next step. -/
theorem CallMove.numbers {rest : List Call} {c : Call} {id : AnalysisId}
    (h : CallMove cfg w rest c e) (hc : c.numbers id) (hrow : ∃ r ∈ w.db.analyses, r.id = id) :
    (∃ c' ∈ e.calls, c'.numbers id) ∨ e.statement = some .recalculatePositions ∨
      e.statement = some (.delete id) := by
  cases h <;> simp only [Call.numbers, Bool.false_eq_true, decide_eq_true_eq] at hc
  case ended hsettles =>
    have hnumbers : c.settles := Call.settles_of_numbers hc
    rw [hsettles] at hnumbers
    cases hnumbers
  case publish | publishFull | retryPublish | setStreamId =>
    subst hc
    exact Or.inl ⟨_, List.mem_cons_self, by simp [Call.numbers]⟩
  case rollBack =>
    subst hc
    exact Or.inr (Or.inr rfl)
  case setStreamIdMissed hmiss =>
    obtain ⟨r, hr, hid⟩ := hrow
    have hnot := List.find?_eq_none.mp hmiss r hr
    exact absurd (decide_eq_true (hid.trans hc.symm)) hnot
  case recalculate => exact Or.inr (Or.inl rfl)

/-- **A position to come** stays to come, until the queue is renumbered or the row is gone. -/
theorem step_numbers (hkeep : KeepsTickets w a) (hstep : step cfg w a = some w') {c : Call}
    (hc : c ∈ w.calls) {id : AnalysisId} (hnumbers : c.numbers id)
    (hrow : ∃ r ∈ w.db.analyses, r.id = id) :
    (∃ c' ∈ w'.calls, c'.numbers id) ∨ stepStatement cfg w a = some .recalculatePositions ∨
      stepStatement cfg w a = some (.delete id) := by
  rcases step_cases hstep with hlife | ⟨e, hplan, rfl⟩
  · exact Or.inl ⟨c, (lifecycle_untouched hlife).calls ▸ hc, hnumbers⟩
  rw [stepStatement_eq hplan]
  by_cases ha : a.ofApi
  · cases plan_apiMove hplan ha with
    | request hmove =>
      refine Or.inl ⟨c, ?_, hnumbers⟩
      cases hmove <;> first | exact hc | exact List.mem_cons_of_mem _ hc
    | @advance c₀ _ hc₀ hmove =>
      by_cases hsame : c = c₀
      · exact hmove.numbers (hsame ▸ hnumbers) hrow
      · exact Or.inl ⟨c, hmove.subset_calls ((List.mem_erase_of_ne hsame).mpr hc), hnumbers⟩
    | @abort c₀ _ =>
      -- a request that numbers rows does not fail
      have hne : c ≠ c₀ := by
        rintro rfl
        rw [KeepsTickets, Call.settles_of_numbers hnumbers] at hkeep
        cases hkeep
      have hrest : c ∈ w.calls.erase c₀ := (List.mem_erase_of_ne hne).mpr hc
      refine Or.inl ⟨c, ?_, hnumbers⟩
      cases c₀ <;> first | exact hrest | exact List.mem_cons_of_mem _ hrest
  · refine Or.inl ⟨c, ?_, hnumbers⟩
    have hcalls := (plan_move hplan (by simpa using ha)).calls.1
    change c ∈ e.calls
    rwa [hcalls]

/-- Queued rows have a position, or a request in flight gives them one. -/
def World.Numbered (w : World) : Prop :=
  ∀ r ∈ w.db.analyses, r.status = .queued → r.queuePosition = none →
    ∃ c ∈ w.calls, c.numbers r.id

/-- Renumbering leaves no queued row without a position. -/
theorem position_of_renumbers {now : Time} {db : Database} {s : Statement} (hs : s.renumbers)
    {r : Analysis} (hr : r ∈ (s.run now db).analyses) (hq : r.status = .queued) :
    r.queuePosition ≠ none := by
  cases s <;> simp only [Statement.renumbers, Bool.false_eq_true] at hs <;>
    rw [(mem_recalculatePositions hr hq).1] <;> exact nofun

/-- A row that is queued without a position is queued by a request that goes on. -/
theorem step_enters (hstep : step cfg w a = some w') {s : Statement}
    (hs : stepStatement cfg w a = some s) {id : AnalysisId}
    (hkind : (∃ userId, s = .retry id userId ∧ ∃ r ∈ w.db.analyses, r.retryable id userId) ∨
      ∃ userId songId mode, s = .create id userId songId .queued mode) :
    ∃ c ∈ w'.calls, c.numbers id := by
  obtain ⟨e, hplan, hstatement⟩ := Option.bind_eq_some_iff.mp hs
  rw [step_eq_apply hstep hplan]
  have hapi : a.ofApi := by
    rw [plan_ofApi hplan hstatement]
    rcases hkind with ⟨_, rfl, -⟩ | ⟨_, _, _, rfl⟩ <;> rfl
  rcases hkind with ⟨userId, rfl, r, hr, hguard⟩ | ⟨userId, songId, mode, rfl⟩
  · cases plan_apiMove hplan hapi with
    | request hmove => cases hmove <;> cases hstatement
    | advance hc hmove =>
      cases hmove <;> cases hstatement
      case retryUpdate.refl => exact ⟨_, List.mem_cons_self, by simp [Call.numbers]⟩
      case retryMissed.refl hmiss => exact absurd hguard (hmiss r hr)
    | abort => cases hstatement
  · cases plan_apiMove hplan hapi with
    | request hmove => cases hmove <;> cases hstatement
    | advance _ hmove =>
      cases hmove <;> cases hstatement
      exact ⟨_, List.mem_cons_self, by simp [Call.numbers]⟩
    | abort => cases hstatement

theorem World.Numbered.step (h : w.Numbered) (hkeep : KeepsTickets w a)
    (hstep : step cfg w a = some w') : w'.Numbered := by
  intro r hr hq hnone
  have hdb := step_db hstep
  rw [hdb] at hr
  cases hs : stepStatement cfg w a with
  | none =>
    rw [hs] at hr
    obtain ⟨c, hc, hnumbers⟩ := h r hr hq hnone
    rcases step_numbers hkeep hstep hc hnumbers ⟨r, hr, rfl⟩ with hcall | hs' | hs'
    · exact hcall
    · rw [hs] at hs'
      cases hs'
    · rw [hs] at hs'
      cases hs'
  | some s =>
    rw [hs, Option.elim_some] at hr
    have hren : s.renumbers = false := by
      by_contra hren
      exact position_of_renumbers (by simpa using hren) hr hq hnone
    rcases mem_run.mp hr with ⟨b, hb, hbr⟩ | hins
    · have hid := onRow_id hbr
      rcases onRow_position hbr hren hq with ⟨hbq, -, hpos⟩ | ⟨-, id, userId, rfl, hguard⟩
      · obtain ⟨c, hc, hnumbers⟩ := h b hb hbq (hpos.trans hnone)
        rw [← hid] at hnumbers
        rcases step_numbers hkeep hstep hc hnumbers ⟨b, hb, hid.symm⟩ with hcall | hs' | hs'
        · exact hcall
        · rw [hs] at hs'
          cases hs'
          cases hren
        · rw [hs] at hs'
          cases hs'
          rw [Statement.onRow, if_pos hid.symm] at hbr
          cases hbr
      · refine step_enters hstep hs (Or.inl ⟨userId, ?_, b, hb, ?_⟩)
        · rw [hid, (Analysis.retryable_iff.mp hguard).1]
        · rwa [hid, (Analysis.retryable_iff.mp hguard).1]
    · cases s <;> simp only [Statement.inserted, List.mem_singleton, List.not_mem_nil] at hins
      subst hins
      simp only at hq
      subst hq
      exact step_enters hstep hs (Or.inr ⟨_, _, _, rfl⟩)

/-! ## The order of the entries -/

/-- The step appends no analysis behind the entry of one with a larger `queue_seq`. -/
def AppendsInOrder (cfg : Config) (w : World) (a : Action) : Prop :=
  ∀ id ∈ stepAppends cfg w a, ∀ r ∈ w.db.analyses, r.id = id → r.status = .queued →
    ∀ t ∈ w.db.analyses, t.status = .queued → r.queueSeq < t.queueSeq →
      ∀ x ∈ w.sent, x.fields ≠ t.id

instance (cfg : Config) (w : World) (a : Action) : Decidable (AppendsInOrder cfg w a) :=
  inferInstanceAs (Decidable (∀ _ ∈ _, _))

/-- What keeps the order of service that of the positions. -/
def ServesInOrder (cfg : Config) (w : World) (a : Action) : Prop :=
  KeepsTickets w a ∧ AppendsInOrder cfg w a

instance (cfg : Config) (w : World) (a : Action) : Decidable (ServesInOrder cfg w a) :=
  inferInstanceAs (Decidable (_ ∧ _))

/-- The entries of queued analyses follow each other as their `queue_seq`s do. -/
def World.EntriesOrdered (w : World) : Prop :=
  ∀ r ∈ w.db.analyses, r.status = .queued → ∀ t ∈ w.db.analyses, t.status = .queued →
    r.queueSeq < t.queueSeq → ∀ x ∈ w.sent, x.fields = r.id → ∀ y ∈ w.sent, y.fields = t.id →
      x.id < y.id

/-- A queued row that had a ticket was queued before, with the same `queue_seq`. -/
theorem row_of_ticket (h : TicketsSound w) (hkeep : KeepsTickets w a)
    (hstep : step cfg w a = some w') {r : Analysis} (hr : r ∈ w'.db.analyses)
    (hq : r.status = .queued) (hpos : 0 < w.tickets r.id) :
    ∃ b ∈ w.db.analyses, b.id = r.id ∧ b.status = .queued ∧ b.queueSeq = r.queueSeq := by
  cases h.rowStep hkeep hstep hr with
  | stays hb hid hmove hseq => exact ⟨_, hb, hid, hmove.queued hq, hseq hq⟩
  | enters hb hid hb' =>
    have hless : AnalysisStatus.ticketless _ := hb'.elim (fun h => Or.inr (Or.inl h)) Or.inl
    have hzero := h.settled _ hb hless
    rw [hid] at hzero
    omega
  | inserted hid =>
    have hzero := h.fresh r.id hid.ge
    omega
  | ends _ _ _ _ hrs =>
    rw [hq] at hrs
    rcases hrs with hrs | hrs <;> cases hrs

/-- So was one with an entry. -/
theorem row_of_sent (h : TicketsSound w) (hkeep : KeepsTickets w a)
    (hstep : step cfg w a = some w') {r : Analysis} (hr : r ∈ w'.db.analyses)
    (hq : r.status = .queued) {x : Entry AnalysisId} (hx : x ∈ w.sent) (hfields : x.fields = r.id) :
    ∃ b ∈ w.db.analyses, b.id = r.id ∧ b.status = .queued ∧ b.queueSeq = r.queueSeq :=
  row_of_ticket h hkeep hstep hr hq (hfields ▸ tickets_pos_of_sent hx)

theorem World.EntriesOrdered.step (h : w.EntriesOrdered) (htickets : TicketsSound w)
    (hcond : ServesInOrder cfg w a) (hstep : step cfg w a = some w') : w'.EntriesOrdered := by
  obtain ⟨hkeep, happend⟩ := hcond
  have hticket := htickets.ticket hkeep hstep
  intro r hr hrq t ht htq hlt x hx hxr y hy hyt
  rcases hticket.mem_sent hx with hx | ⟨-, -, hnone, hadded⟩
  · obtain ⟨b, hb, hbid, hbq, hbseq⟩ := row_of_sent htickets hkeep hstep hr hrq hx hxr
    rcases hticket.mem_sent hy with hy | ⟨hnew, -⟩
    · obtain ⟨c, hc, hcid, hcq, hcseq⟩ := row_of_sent htickets hkeep hstep ht htq hy hyt
      refine h b hb hbq c hc hcq ?_ x hx (hxr.trans hbid.symm) y hy (hyt.trans hcid.symm)
      rw [hbseq, hcseq]
      exact hlt
    · rw [hnew]
      exact Nat.lt_succ_of_le (htickets.run.entries_le x (World.mem_run_of_sent hx))
  · -- `x` was just appended, which the condition allows only in front of nobody
    rw [step_db hstep, hnone, Option.elim_none] at hr ht
    rcases hticket.mem_sent hy with hy | ⟨-, -, -, hadded'⟩
    · exact absurd hyt (happend x.fields hadded r hr hxr.symm hrq t ht htq hlt y hy)
    · have hsame : x.fields = y.fields := Option.some.inj (hadded.symm.trans hadded')
      have hrt := htickets.sound.db.eq_of_id hr ht (hxr.symm.trans (hsame.trans hyt))
      rw [hrt] at hlt
      exact absurd hlt (Nat.lt_irrefl _)

/-! ## The run -/

structure QueueSound (w : World) : Prop where
  tickets : TicketsSound w
  positions : w.db.PositionsMonotone
  numbered : w.Numbered
  ordered : w.EntriesOrdered

theorem QueueSound.empty : QueueSound {} :=
  ⟨TicketsSound.empty, by rintro r ⟨⟩, by rintro r ⟨⟩, by rintro r ⟨⟩⟩

theorem QueueSound.step (h : QueueSound w) (hcond : ServesInOrder cfg w a)
    (hstep : step cfg w a = some w') : QueueSound w' := by
  refine ⟨h.tickets.step hcond.1 hstep, ?_, h.numbered.step hcond.1 hstep,
    h.ordered.step h.tickets hcond hstep⟩
  rw [step_db hstep]
  cases stepStatement cfg w a with
  | none => exact h.positions
  | some s => exact h.positions.run s

/-- Every queued analysis has one entry of `analyses:run`, not counting the one the worker
is removing, and for any two the first has the smaller position if and only if its entry
comes first. -/
def ServedInOrder (w : World) : Prop :=
  (∀ r ∈ w.db.analyses, r.status = .queued → w.sent.countP (fun x => x.fields = r.id) = 1) ∧
    ∀ r ∈ w.db.analyses, r.status = .queued → ∀ t ∈ w.db.analyses, t.status = .queued →
      ∀ x ∈ w.sent, x.fields = r.id → ∀ y ∈ w.sent, y.fields = t.id →
        ((∃ p ∈ r.queuePosition, ∃ q ∈ t.queuePosition, p < q) ↔ x.id < y.id)

instance (w : World) : Decidable (ServedInOrder w) :=
  inferInstanceAs (Decidable ((∀ _ ∈ _, _) ∧ ∀ _ ∈ _, _))

/-- With no request in flight every queued row has a position. -/
theorem World.Numbered.position (h : w.Numbered) (hcalls : w.calls = []) {r : Analysis}
    (hr : r ∈ w.db.analyses) (hq : r.status = .queued) : ∃ p, r.queuePosition = some p := by
  cases hpos : r.queuePosition with
  | some p => exact ⟨p, rfl⟩
  | none =>
    obtain ⟨c, hc, -⟩ := h r hr hq hpos
    rw [hcalls] at hc
    cases hc

/-- **Where entries are appended in order**, and nobody fails with an analysis yet to be
appended or numbered, every state without a request or a wake in flight serves the queued
analyses in the order shown. -/
theorem servedInOrder_of_meets {actions : List Action}
    (hmeets : Meets (step cfg) (ServesInOrder cfg) {} actions)
    (hrun : exec (step cfg) {} actions = some w) (hcalls : w.calls = [])
    (happend : w.worker.toAppend = []) : ServedInOrder w := by
  have hsound : QueueSound w :=
    invariant QueueSound (fun s a s' h hcond hs => h.step hcond hs) QueueSound.empty hmeets hrun
  have hunsent : w.unsent = [] := by rw [World.unsent, hcalls, happend]; rfl
  constructor
  · intro r hr hq
    have hone := hsound.tickets.queued r hr hq
    rwa [World.tickets, hunsent, List.count_nil, Nat.zero_add] at hone
  · intro r hr hrq t ht htq x hx hxr y hy hyt
    obtain ⟨p, hp⟩ := hsound.numbered.position hcalls hr hrq
    obtain ⟨q, hq⟩ := hsound.numbered.position hcalls ht htq
    have hpositions : (∃ p ∈ r.queuePosition, ∃ q ∈ t.queuePosition, p < q) ↔ p < q := by
      rw [hp, hq]
      simp
    rw [hpositions]
    rcases Nat.lt_trichotomy r.queueSeq t.queueSeq with hlt | heq | hgt
    · exact iff_of_true (hsound.positions r hr hrq t ht htq p hp q hq hlt)
        (hsound.ordered r hr hrq t ht htq hlt x hx hxr y hy hyt)
    · -- the same row
      obtain rfl := hsound.tickets.sound.db.eq_of_queueSeq hr ht heq
      obtain rfl : p = q := Option.some.inj (hp.symm.trans hq)
      have hone : w.sent.countP (fun z => z.fields = r.id) ≤ 1 :=
        (Nat.le_add_left _ _).trans (hsound.tickets.once r.id)
      obtain rfl := eq_of_countP_le_one hone hx hy (decide_eq_true hxr) (decide_eq_true hyt)
      exact iff_of_false (Nat.lt_irrefl _) (Nat.lt_irrefl _)
    · exact iff_of_false
        (Nat.lt_asymm (hsound.positions t ht htq r hr hrq q hq p hp hgt))
        (Nat.lt_asymm (hsound.ordered t ht htq r hr hrq hgt y hy hyt x hx hxr))

end VocalCoach
