/-
# One ticket for each queued analysis

A queued analysis has exactly one ticket and an analysis that waits, failed or is done has
none; so nothing is served twice and nothing queued is forgotten.  `TicketsSound` says
this together with what it rests on: names of stream entries are good, and the entry in
the worker's hand is the only ticket of its analysis (`HandSound`).

`TicketsSound.step` holds as long as nobody fails with a ticket in hand.
-/
import VocalCoach.EntryNames
import VocalCoach.TicketRows

namespace VocalCoach

open RedisStream

variable {cfg : Config} {w w' : World} {a : Action} {e : Effect} {added : Option AnalysisId}

/-! ## Into the worker's hands -/

/-- An idle worker takes an entry of the stream and changes nothing else. -/
structure TakesUp (w w' : World) (x : Entry AnalysisId) : Prop where
  idle : w.worker = .idle
  mem : x ∈ w.run.entries
  entries : w'.run.entries = w.run.entries
  calls : w'.calls = w.calls
  db : w'.db = w.db

/-- **How an entry gets into the worker's hand.** -/
theorem step_hand (hstep : step cfg w a = some w') {x : Entry AnalysisId}
    (hx : w'.worker.hand = some x) : w.worker.hand = some x ∨ TakesUp w w' x := by
  rcases step_cases hstep with hlife | ⟨e, hplan, rfl⟩
  · rcases (lifecycle_untouched hlife).worker with hw | hw | hw <;> rw [hw] at hx
    · exact Or.inl hx
    · cases hx
    · cases hx
  by_cases ha : a.ofApi
  · have hworker : (w.apply e).worker = w.worker := plan_worker hplan ha
    exact Or.inl (hworker ▸ hx)
  have hmove := plan_move hplan (by simpa using ha)
  generalize hworker : w.worker = worker at hmove
  cases hmove
  case deliver y hy =>
    cases hx
    have hmem := (Stream.mem_of_newEntries (List.mem_of_mem_head? hy)).1
    exact Or.inr ⟨hworker, hmem, rfl, rfl, rfl⟩
  case reclaimRun hrange =>
    cases hx
    exact Or.inr ⟨hworker, Stream.mem_of_xrange hrange, (Stream.xclaim_entries _ _ _ _ _).1, rfl, rfl⟩
  case giveUpRun hrange =>
    cases hx
    exact Or.inr ⟨hworker, Stream.mem_of_xrange hrange, rfl, rfl, rfl⟩
  all_goals first
    | exact Or.inl hx
    | cases hx

/-- An entry being removed was in the worker's hand, or its message is gone. -/
theorem step_retires (hrun : w.run.Ordered) (hstep : step cfg w a = some w') {entry : EntryId}
    (hentry : w'.worker.retires = some entry) :
    w.worker.retires = some entry ∨ (∃ id, w.worker.hand = some ⟨entry, id⟩) ∨
      entry ≤ w.run.lastId := by
  rcases step_cases hstep with hlife | ⟨e, hplan, rfl⟩
  · rcases (lifecycle_untouched hlife).worker with hw | hw | hw <;> rw [hw] at hentry
    · exact Or.inl hentry
    · cases hentry
    · cases hentry
  by_cases ha : a.ofApi
  · have hworker : (w.apply e).worker = w.worker := plan_worker hplan ha
    exact Or.inl (hworker ▸ hentry)
  have hmove := plan_move hplan (by simpa using ha)
  generalize w.worker = worker at hmove
  cases hmove
  case giveUpRunGone d hd _ _ =>
    cases hentry
    obtain ⟨hpending, hid, -⟩ := Stream.mem_of_claimable hd
    have hle := (hrun.pending_le d hpending).trans hrun.delivered_le
    exact Or.inr (Or.inr (hid ▸ hle))
  case markFailed | markDone | unrecorded =>
    cases hentry
    exact Or.inr (Or.inl ⟨_, rfl⟩)
  all_goals first
    | exact Or.inl hentry
    | cases hentry

theorem hand_of_retires {worker : Worker} {entry : EntryId} (h : worker.retires = some entry) :
    worker.hand = none := by
  cases worker <;> first | rfl | cases h

/-- Whoever holds an entry appends and removes none. -/
theorem Worker.of_hand {worker : Worker} {x : Entry AnalysisId} (h : worker.hand = some x) :
    worker.toAppend = [] ∧ worker.retires = none := by
  cases worker <;> first | exact ⟨rfl, rfl⟩ | cases h

/-! ## The invariant -/

/-- The entry in the worker's hand is the only ticket of its analysis. -/
structure HandSound (w : World) (x : Entry AnalysisId) : Prop where
  refers : Refers w.run x.fields x.id
  taken : x.fields < w.nextUuid
  unowed : x.fields ∉ w.unsent
  only : ∀ y ∈ w.sent, y.fields = x.fields → y.id = x.id
  status : ∀ r ∈ w.db.analyses, r.id = x.fields →
    r.status ≠ .failed ∧ r.status ≠ .waitingForReference

/-- The statuses of an analysis that is not in the queue, and is not being processed. -/
def AnalysisStatus.ticketless (status : AnalysisStatus) : Prop :=
  status = .waitingForReference ∨ status = .failed ∨ status = .done

structure TicketsSound (w : World) : Prop where
  sound : w.Sound
  run : w.run.Ordered
  retired : ∀ entry, w.worker.retires = some entry → entry ≤ w.run.lastId
  once : ∀ id, w.tickets id ≤ 1
  fresh : ∀ id, w.nextUuid ≤ id → w.tickets id = 0
  queued : ∀ r ∈ w.db.analyses, r.status = .queued → w.tickets r.id = 1
  settled : ∀ r ∈ w.db.analyses, r.status.ticketless → w.tickets r.id = 0
  hand : ∀ x, w.worker.hand = some x → HandSound w x
  rowNames : ∀ r ∈ w.db.analyses, ∀ entry ∈ r.queueStreamId, Refers w.run r.id entry
  callNames : ∀ c ∈ w.calls, ∀ id entry, c.names = some (id, entry) → Refers w.run id entry
  cancels : ∀ id entry, .cancelRemove id entry ∈ w.calls →
    ∀ r ∈ w.db.analyses, r.id = id → r.status = .queued → ∀ x ∈ w.sent, x.id ≠ entry

theorem TicketsSound.empty : TicketsSound {} where
  sound := World.Sound.empty
  run := Stream.Ordered.empty
  retired := by rintro entry ⟨⟩
  once _ := Nat.zero_le 1
  fresh _ _ := rfl
  queued := by simp
  settled := by simp
  hand := by rintro x ⟨⟩
  rowNames := by simp
  callNames := by simp
  cancels := by simp

theorem World.mem_run_of_sent {x : Entry AnalysisId} (hx : x ∈ w.sent) : x ∈ w.run.entries :=
  List.mem_of_mem_filter hx

/-! ## What a step issues -/

/-- **Tickets are issued to those who have none**, one each. -/
theorem TicketsSound.issued (h : TicketsSound w) (hstep : step cfg w a = some w')
    {id : AnalysisId} (hid : id ∈ w.issued cfg a) :
    w.tickets id = 0 ∧ (w.issued cfg a).count id = 1 ∧ id < w'.nextUuid := by
  have hone := List.count_eq_one_of_mem h.sound.issued_nodup hid
  rcases issued_from hstep hid with ⟨hnew, hlt⟩ | ⟨r, hr, rfl, hstatus⟩
  · exact ⟨h.fresh id hnew.ge, hone, hnew ▸ hlt⟩
  · have hless : r.status.ticketless := hstatus.elim (fun h => Or.inr (Or.inl h)) Or.inl
    exact ⟨h.settled r hr hless, hone, (h.sound.fresh r hr).trans_le (step_nextUuid hstep)⟩

/-! ## What a step keeps -/

/-- What is counted once is one thing. -/
theorem eq_of_countP_le_one {α : Type*} {p : α → Bool} {l : List α} (h : l.countP p ≤ 1) {x y : α}
    (hx : x ∈ l) (hy : y ∈ l) (hpx : p x) (hpy : p y) : x = y := by
  rw [List.countP_eq_length_filter] at h
  have hx : x ∈ l.filter p := List.mem_filter.mpr ⟨hx, hpx⟩
  have hy : y ∈ l.filter p := List.mem_filter.mpr ⟨hy, hpy⟩
  obtain ⟨i, hi, rfl⟩ := List.getElem_of_mem hx
  obtain ⟨j, hj, rfl⟩ := List.getElem_of_mem hy
  obtain rfl : i = j := by omega
  rfl

/-- A ticket survives if its entry does. -/
theorem tickets_filter_eq {p : Entry AnalysisId → Bool} {id : AnalysisId}
    (hunsent : w'.unsent.Perm w.unsent) (hsent : w'.sent = w.sent.filter p)
    (hp : ∀ x ∈ w.sent, x.fields = id → p x) : w'.tickets id = w.tickets id := by
  rw [World.tickets, World.tickets, hunsent.count_eq, hsent, List.countP_filter]
  congr 1
  refine List.countP_congr fun x hx => ?_
  by_cases hfields : x.fields = id
  · simp [hfields, hp x hx hfields]
  · simp [hfields]

theorem TicketStep.tickets_le_of_notMem {s : Option Statement} (h : TicketStep w w' s added)
    {id : AnalysisId} (hid : id ∉ s.elim [] (Statement.issues w.db)) :
    w'.tickets id ≤ w.tickets id := by
  have hle := h.tickets_le id
  rwa [List.count_eq_zero.mpr hid, Nat.add_zero] at hle

/-- **A row that stays in the queue keeps its ticket**: only its own roll-back, cancel or
job takes it. -/
theorem TicketsSound.kept (h : TicketsSound w) {s : Option Statement} {now : Time}
    (hticket : TicketStep w w' s added) (hdb : w'.db = s.elim w.db fun s => s.run now w.db)
    {b r : Analysis} (hb : b ∈ w.db.analyses) (hbq : b.status = .queued)
    (hr : r ∈ w'.db.analyses) (hid : b.id = r.id) (hq : r.status = .queued)
    (hissued : r.id ∉ s.elim [] (Statement.issues w.db)) :
    w'.tickets r.id = w.tickets r.id := by
  cases hticket with
  | issue hunsent hsent =>
    rw [tickets_of_perm hunsent hsent, List.count_eq_zero.mpr hissued, Nat.add_zero]
  | send hunsent hsent => exact tickets_send hunsent hsent r.id
  | @undo id _ hunsent hsent =>
    -- the row of the roll-back is gone
    have hne : r.id ≠ id := by
      rw [hdb] at hr
      exact of_decide_eq_true (List.mem_filter.mp hr).2
    rw [World.tickets, World.tickets, hunsent.count_eq, hsent, List.count_cons_of_ne hne.symm]
  | @withdraw id entry _ hcall hunsent hsent =>
    refine tickets_filter_eq hunsent hsent fun x hx hfields => decide_eq_true fun hxid => ?_
    have hown := (h.callNames _ hcall id entry rfl).fields x (World.mem_run_of_sent hx) hxid
    exact h.cancels id entry hcall b hb (hid.trans (hfields.symm.trans hown)) hbq x hx hxid
  | @finish entry id _ _ hhand hunsent hsent _ hkind =>
    refine tickets_filter_eq hunsent hsent fun x hx hfields => decide_eq_true fun hxid => ?_
    have hown := (h.hand _ hhand).refers.fields x (World.mem_run_of_sent hx) hxid
    have hrid : r.id = id := hfields.symm.trans hown
    rw [hdb, Option.elim_some] at hr
    rcases mem_run.mp hr with ⟨c, -, hcr⟩ | hins
    · rcases onRow_ends hkind hcr ((onRow_id hcr).symm.trans hrid) with hdone | hfailed
      · cases hdone.symm.trans hq
      · cases hfailed.symm.trans hq
    · rcases hkind with rfl | ⟨errorCode, rfl⟩ <;> cases hins

/-- The job of an analysis takes its last ticket along. -/
theorem HandSound.tickets_ends {x : Entry AnalysisId} (h : HandSound w x)
    (hunsent : w'.unsent.Perm w.unsent) (hsent : w'.sent = w.sent.filter fun y => y.id ≠ x.id) :
    w'.tickets x.fields = 0 := by
  have howed : w'.unsent.count x.fields = 0 :=
    List.count_eq_zero.mpr fun hmem => h.unowed (hunsent.mem_iff.mp hmem)
  have hnone : w'.sent.countP (fun y => y.fields = x.fields) = 0 := by
    rw [hsent, List.countP_eq_zero]
    intro y hy
    obtain ⟨hmem, hne⟩ := List.mem_filter.mp hy
    simp only [decide_eq_true_eq] at hne ⊢
    exact fun hfields => hne (h.only y hmem hfields)
  rw [World.tickets, howed, hnone]

/-- How a quiet move gets to a status without a ticket. -/
theorem QuietMove.ticketless {before after : AnalysisStatus} (h : QuietMove before after)
    (hafter : after.ticketless) : before.ticketless := by
  cases h with
  | same => exact hafter
  | wait => exact Or.inr (Or.inl rfl)
  | fail => exact Or.inl rfl
  | cancel | start => rcases hafter with h | h | h <;> cases h

theorem QuietMove.queued {before after : AnalysisStatus} (h : QuietMove before after)
    (hafter : after = .queued) : before = .queued := by
  cases h <;> first | exact hafter | cases hafter

section Step

variable (h : TicketsSound w) (hkeep : KeepsTickets w a) (hstep : step cfg w a = some w')

include h hkeep hstep

theorem TicketsSound.ticket : TicketStep w w' (stepStatement cfg w a) (stepAppends cfg w a) :=
  step_ticket hstep hkeep h.retired

theorem TicketsSound.rowStep {r : Analysis} (hr : r ∈ w'.db.analyses) :
    RowStep w w' (w.issued cfg a) r :=
  step_rowStep h.sound hstep (h.ticket hkeep hstep) hr

/-- A ticket in hand after the step is of no analysis the step has issued. -/
theorem TicketsSound.once_step (id : AnalysisId) : w'.tickets id ≤ 1 := by
  have hticket := h.ticket hkeep hstep
  by_cases hid : id ∈ w.issued cfg a
  · obtain ⟨hzero, hone, -⟩ := h.issued hstep hid
    have hgain := hticket.tickets_issued hid
    rw [World.issued] at hone
    omega
  · exact (hticket.tickets_le_of_notMem hid).trans (h.once id)

theorem TicketsSound.fresh_step (id : AnalysisId) (hid : w'.nextUuid ≤ id) :
    w'.tickets id = 0 := by
  have hnew : id ∉ w.issued cfg a :=
    fun hissued => absurd hid (Nat.not_le_of_lt (h.issued hstep hissued).2.2)
  have hle := (h.ticket hkeep hstep).tickets_le_of_notMem hnew
  rw [h.fresh id ((step_nextUuid hstep).trans hid)] at hle
  exact Nat.le_zero.mp hle

theorem TicketsSound.queued_step {r : Analysis} (hr : r ∈ w'.db.analyses)
    (hq : r.status = .queued) : w'.tickets r.id = 1 := by
  have hticket := h.ticket hkeep hstep
  have hgain : r.id ∈ w.issued cfg a → w'.tickets r.id = 1 := by
    intro hissued
    obtain ⟨hzero, hone, -⟩ := h.issued hstep hissued
    rw [hticket.tickets_issued hissued, hzero, Nat.zero_add]
    exact hone
  cases h.rowStep hkeep hstep hr with
  | stays hb hid hmove hseq hissued =>
    have hbq := hmove.queued hq
    rw [h.kept hticket (step_db hstep) hb hbq hr hid hq hissued, ← hid]
    exact h.queued _ hb hbq
  | enters hb hid hb' hrq hissued => exact hgain hissued
  | inserted hid hrs =>
    rcases hrs with ⟨-, hissued⟩ | ⟨hwait, -⟩
    · exact hgain hissued
    · rw [hq] at hwait
      cases hwait
  | ends _ _ _ _ hrs =>
    rw [hq] at hrs
    rcases hrs with hrs | hrs <;> cases hrs

theorem TicketsSound.settled_step {r : Analysis} (hr : r ∈ w'.db.analyses)
    (hstatus : r.status.ticketless) : w'.tickets r.id = 0 := by
  have hticket := h.ticket hkeep hstep
  cases h.rowStep hkeep hstep hr with
  | stays hb hid hmove hseq hissued =>
    have hle := hticket.tickets_le_of_notMem hissued
    rw [← hid, h.settled _ hb (hmove.ticketless hstatus)] at hle
    rw [← hid]
    exact Nat.le_zero.mp hle
  | enters hb hid hb' hrq hissued =>
    rw [hrq] at hstatus
    rcases hstatus with h | h | h <;> cases h
  | inserted hid hrs =>
    rcases hrs with ⟨hrq, -⟩ | ⟨-, hissued⟩
    · rw [hrq] at hstatus
      rcases hstatus with h | h | h <;> cases h
    · have hle := hticket.tickets_le_of_notMem hissued
      rw [h.fresh r.id hid.ge] at hle
      exact Nat.le_zero.mp hle
  | ends hhand hunsent hsent _ _ => exact (h.hand _ hhand).tickets_ends hunsent hsent

/-- The entry stays in hand. -/
theorem HandSound.step {x : Entry AnalysisId} (hx : HandSound w x)
    (hafter : w'.worker.hand = some x) : HandSound w' x := by
  have hticket := h.ticket hkeep hstep
  have hissued : x.fields ∉ w.issued cfg a := by
    intro hmem
    rcases issued_from hstep hmem with ⟨hnew, -⟩ | ⟨r, hr, hrid, hfailed | hwait⟩
    · exact absurd (hnew ▸ hx.taken) (Nat.lt_irrefl _)
    · exact (hx.status r hr hrid).1 hfailed
    · exact (hx.status r hr hrid).2 hwait
  refine ⟨hx.refers.step hstep, hx.taken.trans_le (step_nextUuid hstep), ?_, ?_, ?_⟩
  · intro hmem
    rcases hticket.mem_unsent hmem with hmem | hmem
    · exact hx.unowed hmem
    · exact hissued hmem
  · intro y hy hfields
    rcases hticket.mem_sent hy with hy | ⟨-, howed, -⟩
    · exact hx.only y hy hfields
    · exact absurd (hfields ▸ howed) hx.unowed
  · intro r hr hid
    cases h.rowStep hkeep hstep hr with
    | @stays b hb hbid hmove =>
      obtain ⟨hfailed, hwait⟩ := hx.status b hb (hbid.trans hid)
      generalize b.status = before, r.status = after at *
      cases hmove with
      | same => exact ⟨hfailed, hwait⟩
      | cancel | start => exact ⟨nofun, nofun⟩
      | wait => exact absurd rfl hfailed
      | fail => exact absurd rfl hwait
    | enters _ _ _ _ hmem => exact absurd (hid ▸ hmem) hissued
    | inserted hnew => exact absurd (hid ▸ hnew ▸ hx.taken) (Nat.lt_irrefl _)
    | ends _ _ _ hretires =>
      rw [hand_of_retires hretires] at hafter
      cases hafter

omit hkeep in
/-- An entry that is taken up is the ticket of its analysis. -/
theorem TicketsSound.takesUp {x : Entry AnalysisId} (hx : TakesUp w w' x)
    (hafter : w'.worker.hand = some x) : HandSound w' x := by
  have hretires : w.worker.retires = none := by rw [hx.idle]; rfl
  have hsent : w.sent = w.run.entries := sent_of_retires hretires
  obtain ⟨happend', hretires'⟩ := Worker.of_hand hafter
  have hsent' : w'.sent = w.sent := by rw [sent_of_retires hretires', hx.entries, hsent]
  have hunsent' : w'.unsent = w.unsent := by
    rw [World.unsent, World.unsent, hx.calls, happend', hx.idle]
    rfl
  have hmem : x ∈ w.sent := hsent ▸ hx.mem
  have hpos := tickets_pos_of_sent hmem
  have hone := h.once x.fields
  refine ⟨(refers_self h.run hx.mem).step hstep, ?_, ?_, ?_, ?_⟩
  · by_contra hge
    have hzero := h.fresh x.fields ((step_nextUuid hstep).trans (Nat.not_lt.mp hge))
    omega
  · -- the one ticket of the analysis is its entry
    rw [hunsent']
    intro howed
    have hcount := List.count_pos_iff.mpr howed
    have hentry : 0 < w.sent.countP fun y => y.fields = x.fields :=
      List.countP_pos_iff.mpr ⟨x, hmem, decide_eq_true rfl⟩
    rw [World.tickets] at hone
    omega
  · intro y hy hfields
    by_contra hne
    have hone : w.sent.countP (fun y => y.fields = x.fields) ≤ 1 :=
      (Nat.le_add_left _ _).trans (h.once x.fields)
    exact hne (congrArg Entry.id (eq_of_countP_le_one hone (hsent' ▸ hy) hmem
      (decide_eq_true hfields) (decide_eq_true rfl)))
  · intro r hr hid
    rw [hx.db] at hr
    constructor
    · intro hfailed
      have hzero := h.settled r hr (Or.inr (Or.inl hfailed))
      rw [hid] at hzero
      omega
    · intro hwait
      have hzero := h.settled r hr (Or.inl hwait)
      rw [hid] at hzero
      omega

/-- **Every step keeps one ticket for each queued analysis**, as long as nobody fails with
a ticket in hand. -/
theorem TicketsSound.step : TicketsSound w' where
  sound := h.sound.step hstep
  run := by
    rcases step_run hstep with hsame | ⟨c, hrun⟩
    · exact hsame ▸ h.run
    · exact hrun ▸ c.run_ordered h.run w.now
  retired := by
    intro entry hentry
    refine le_trans ?_ (step_lastId hstep)
    rcases step_retires h.run hstep hentry with hold | ⟨id, hhand⟩ | hle
    · exact h.retired entry hold
    · exact (h.hand _ hhand).refers.le
    · exact hle
  once := h.once_step hkeep hstep
  fresh := h.fresh_step hkeep hstep
  queued := fun r hr hq => h.queued_step hkeep hstep hr hq
  settled := fun r hr hstatus => h.settled_step hkeep hstep hr hstatus
  hand := by
    intro x hx
    rcases step_hand hstep hx with hold | htakes
    · exact HandSound.step h hkeep hstep (h.hand x hold) hx
    · exact h.takesUp hstep htakes hx
  rowNames := by
    intro r hr entry hentry
    rcases step_queueStreamId hstep hr hentry with ⟨b, hb, hid, hbe⟩ | hcall
    · exact hid ▸ (h.rowNames b hb entry hbe).step hstep
    · exact (h.callNames _ hcall r.id entry rfl).step hstep
  callNames := by
    intro c hc id entry hname
    rcases step_names hstep hc hname with hold | ⟨hrun, rfl⟩ | ⟨r, hr, rfl, hentry⟩
    · exact (h.callNames c hold id entry hname).step hstep
    · rw [hrun]
      exact refers_xadd h.run id
    · exact (h.rowNames r hr entry hentry).step hstep
  cancels := by
    intro id entry hc r hr hid hq x hx hxid
    have hcall := step_cancelRemove h.sound hstep hc hr hid hq
    have hname := h.callNames _ hcall id entry rfl
    rcases (h.ticket hkeep hstep).mem_sent hx with hx | ⟨hnew, -⟩
    · -- an old entry by that name is the ticket of the row, which was queued before
      have hfields : x.fields = r.id := (hname.fields x (World.mem_run_of_sent hx) hxid).trans hid.symm
      have hpos := tickets_pos_of_sent hx
      rw [hfields] at hpos
      cases h.rowStep hkeep hstep hr with
      | stays hb hbid hmove =>
        exact h.cancels id entry hcall _ hb (hbid.trans hid) (hmove.queued hq) x hx hxid
      | enters hb hbid hb' =>
        have hless : AnalysisStatus.ticketless _ := hb'.elim (fun h => Or.inr (Or.inl h)) Or.inl
        have hzero := h.settled _ hb hless
        rw [hbid] at hzero
        omega
      | inserted hnew =>
        have hzero := h.fresh r.id hnew.ge
        omega
      | ends _ _ _ _ hrs =>
        rw [hq] at hrs
        rcases hrs with hrs | hrs <;> cases hrs
    · rw [← hxid, hnew] at hname
      exact absurd hname.le (Nat.not_succ_le_self _)

end Step

end VocalCoach
