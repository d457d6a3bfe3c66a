/-
# Canceled analyses

`Cancel` moves a row to `canceled` and removes its stream entry by the id stored in the row,
on a best-effort basis; the worker's statements have no guard on the status.  So what keeps
a canceled row canceled is that nobody takes it up any more: its entries are on their way
out (`World.LetGo`), which rests on the order of `Cancel`, `XADD`, `SetQueueStreamID` and
the delivery (`CancelsInTurn`).

With one ticket for each queued analysis the first part of that order is met by every
`Cancel` of a waiting analysis and of one whose stored entry is in the stream
(`CancelsStored`).
-/
import VocalCoach.TicketsSound

namespace VocalCoach

open RedisStream Machine

variable {cfg : Config} {w w' : World} {a : Action} {e : Effect}

/-! ## The order of a cancel and its entry -/

/-- The owner and the analysis of a `Cancel` request. -/
def Action.cancels : Action → Option (UserId × AnalysisId)
  | .request (.cancel userId id) => some (userId, id)
  | _ => none

/-- The entry a `Cancel` in flight is about to remove. -/
def Call.removes : Call → Option EntryId
  | .cancelRemove _ entry => some entry
  | _ => none

/-- The entry whose `Remove` fails. -/
def Action.failsRemove : Action → Option EntryId
  | .abort c => c.removes
  | _ => none

/-- The entry an action hands to the handler or gives up on. -/
def World.takesUp (w : World) : Action → Option (Entry AnalysisId)
  | .deliver => (w.run.newEntries 1).head?
  | .reclaimRun entry => (w.run.xrange entry).map fun id => ⟨entry, id⟩
  | _ => none

/-- Nobody has the analysis in hand or is about to append it, and the row names whatever
entry it has. -/
def World.Removable (w : World) (r : Analysis) : Prop :=
  w.worker.analysis ≠ some r.id ∧ r.id ∉ w.unsent ∧
    ∀ x ∈ w.run.entries, x.fields = r.id → r.queueStreamId = some x.id

/-- No entry is taken up between the commit of its cancel and the `XDEL`, and no `XDEL` of
an entry fails. -/
def RemovesInTurn (w : World) (a : Action) : Prop :=
  (∀ x ∈ w.takesUp a, ∀ c ∈ w.calls, c.removes ≠ some x.id) ∧
    ∀ entry ∈ a.failsRemove, ∀ x ∈ w.run.entries, x.id ≠ entry

/-- A `Cancel` the row allows comes before the delivery or after the handler, and after the
`XADD` and the `SetQueueStreamID` of the row's entry; its `XDEL` comes before a delivery. -/
def CancelsInTurn (w : World) (a : Action) : Prop :=
  (∀ p ∈ a.cancels, ∀ r ∈ w.db.analyses, r.cancelable p.2 p.1 → w.Removable r) ∧
    RemovesInTurn w a

/-- The analysis waits for its song, or its stored entry is in the stream; the worker has
nothing of it. -/
def World.Stored (w : World) (r : Analysis) : Prop :=
  w.worker.analysis ≠ some r.id ∧
    (∀ x ∈ w.run.entries, w.worker.retires = some x.id → x.fields ≠ r.id) ∧
    (r.status = .queued → ∃ x ∈ w.sent, r.queueStreamId = some x.id)

/-- Every `Cancel` the row allows finds the analysis stored. -/
def CancelsStored (w : World) (a : Action) : Prop :=
  KeepsTickets w a ∧
    (∀ p ∈ a.cancels, ∀ r ∈ w.db.analyses, r.cancelable p.2 p.1 → w.Stored r) ∧
    RemovesInTurn w a

instance (w : World) (r : Analysis) : Decidable (w.Removable r) :=
  inferInstanceAs (Decidable (_ ∧ _ ∧ _))

instance (w : World) (r : Analysis) : Decidable (w.Stored r) :=
  inferInstanceAs (Decidable (_ ∧ _ ∧ _))

instance (w : World) (a : Action) : Decidable (RemovesInTurn w a) :=
  inferInstanceAs (Decidable (_ ∧ _))

instance (w : World) (a : Action) : Decidable (CancelsInTurn w a) :=
  inferInstanceAs (Decidable (_ ∧ _))

instance (w : World) (a : Action) : Decidable (CancelsStored w a) :=
  inferInstanceAs (Decidable (_ ∧ _ ∧ _))

/-! ## What is taken up and removed -/

theorem takesUp_of_handedOver {id : AnalysisId} (h : w.handedOver a = some id) :
    ∃ x ∈ w.takesUp a, x ∈ w.run.entries ∧ x.fields = id := by
  cases a <;> simp only [World.handedOver, reduceCtorEq] at h
  case deliver =>
    obtain ⟨x, hx, rfl⟩ := Option.map_eq_some_iff.mp h
    exact ⟨x, hx, (Stream.mem_of_newEntries (List.mem_of_mem_head? hx)).1, rfl⟩
  case reclaimRun entry =>
    exact ⟨⟨entry, id⟩, Option.map_eq_some_iff.mpr ⟨id, h, rfl⟩, Stream.mem_of_xrange h, rfl⟩

/-- **A `Remove` stays on its way** until it has removed the entry or fails. -/
theorem step_removes (hstep : step cfg w a = some w') {c : Call} (hc : c ∈ w.calls)
    {entry : EntryId} (hremoves : c.removes = some entry) :
    c ∈ w'.calls ∨ (∀ x ∈ w'.run.entries, x.id ≠ entry) ∨ a.failsRemove = some entry := by
  rcases step_cases hstep with hlife | ⟨e, hplan, rfl⟩
  · exact Or.inl ((lifecycle_untouched hlife).calls ▸ hc)
  rcases plan_call hplan hc with hc | rfl | rfl
  · exact Or.inl hc
  · refine Or.inr (Or.inl fun x hx => ?_)
    cases c <;> cases hremoves
    simp only [plan, hc, if_true, Option.some.injEq] at hplan
    subst hplan
    exact of_decide_eq_true (List.mem_filter.mp hx).2
  · exact Or.inr (Or.inr hremoves)

/-! ## Canceled rows -/

/-- Only `Cancel` makes a row canceled, and only one that its guard allows. -/
theorem canceled_of_step (hstep : step cfg w a = some w') {r : Analysis}
    (hr : r ∈ w'.db.analyses) (hcanceled : r.status = .canceled) :
    ∃ b ∈ w.db.analyses, b.id = r.id ∧
      (b.status = .canceled ∨
        ∃ userId, a = .request (.cancel userId r.id) ∧ b.cancelable r.id userId) := by
  rcases step_row hstep hr with hr | ⟨e, s, hplan, hs, ⟨b, hb, hbr⟩ | hins⟩
  · exact ⟨r, hr, rfl, Or.inl hcanceled⟩
  · refine ⟨b, hb, (onRow_id hbr).symm, ?_⟩
    rcases onRow_status hbr with heq | hmove
    · exact Or.inl (heq ▸ hcanceled)
    · rw [hcanceled] at hmove
      cases hmove with
      | @cancel id userId _ hguard =>
        have hid : r.id = id := (onRow_id hbr).trans (Analysis.cancelable_iff.mp hguard).1
        cases plan_apiStatement hplan hs rfl
        exact Or.inr ⟨userId, hid ▸ rfl, hid ▸ hguard⟩
  · rcases plan_inserted_status hplan hs hins with h | h <;> rw [h] at hcanceled <;> cases hcanceled

/-- Nobody takes the analysis up any more: its entries are on their way out. -/
structure World.LetGo (w : World) (id : AnalysisId) : Prop where
  held : w.worker.analysis ≠ some id
  unowed : id ∉ w.unsent
  removed : ∀ x ∈ w.run.entries, x.fields = id → ∃ c ∈ w.calls, c.removes = some x.id

/-- A `Cancel` the row allows goes on with the removal of the entry the row names. -/
theorem plan_cancel (cfg : Config) {b : Analysis} {userId : UserId} (hrow : w.db.analysis b.id = some b)
    (hguard : b.cancelable b.id userId) :
    ∃ c : Call, c.owes = none ∧ c.removes = b.queueStreamId ∧
      plan cfg w (.request (.cancel userId b.id))
        = some { w.keep with statement := some (.cancel b.id userId), calls := c :: w.calls } := by
  cases hentry : b.queueStreamId with
  | none =>
    refine ⟨.recalculate b.id, rfl, rfl, ?_⟩
    simp only [plan, Request.plan, hrow, hguard, if_true, hentry]
  | some entry =>
    refine ⟨.cancelRemove b.id entry, rfl, rfl, ?_⟩
    simp only [plan, Request.plan, hrow, hguard, if_true, hentry]

/-- **`Cancel` lets go of the analysis** when it comes in its turn. -/
theorem World.Removable.letGo (hsound : w.Sound) {b : Analysis} (hb : b ∈ w.db.analyses)
    {userId : UserId} (hguard : b.cancelable b.id userId) (h : w.Removable b)
    (hstep : step cfg w (.request (.cancel userId b.id)) = some w') : w'.LetGo b.id := by
  obtain ⟨hheld, hunowed, hnamed⟩ := h
  obtain ⟨c, howes, hremoves, hplan⟩ :=
    plan_cancel cfg (hsound.db.analysis_eq_some.mpr ⟨hb, rfl⟩) hguard
  obtain rfl := step_eq_apply hstep hplan
  refine ⟨hheld, fun hid => hunowed (World.mem_unsent.mpr ?_), fun x hx hfields => ?_⟩
  · rcases World.mem_unsent.mp hid with ⟨d, hd, hdid⟩ | hid
    · rcases List.mem_cons.mp hd with rfl | hd
      · cases howes.symm.trans hdid
      · exact Or.inl ⟨d, hd, hdid⟩
    · exact Or.inr hid
  · exact ⟨c, List.mem_cons_self, hremoves.trans (hnamed x hx hfields)⟩

/-- **Whoever is let go stays so**: what is in the stream is removed before it is taken up. -/
theorem World.LetGo.step {b : Analysis} (h : w.LetGo b.id) (hsound : w.Sound)
    (hb : b ∈ w.db.analyses) (hcanceled : b.status = .canceled) (hcond : RemovesInTurn w a)
    (hstep : step cfg w a = some w') : w'.LetGo b.id := by
  refine ⟨fun hheld => ?_, fun hid => ?_, fun x hx hfields => ?_⟩
  · rcases step_cases hstep with hlife | ⟨e, hplan, rfl⟩
    · rcases (lifecycle_untouched hlife).worker with hw | hw | hw <;> rw [hw] at hheld
      · exact h.held hheld
      · cases hheld
      · cases hheld
    · rcases plan_analysis hplan hheld with hheld | ⟨-, hhanded⟩
      · exact h.held hheld
      · obtain ⟨x, htakes, hx, hfields⟩ := takesUp_of_handedOver hhanded
        obtain ⟨c, hc, hremoves⟩ := h.removed x hx hfields
        exact hcond.1 x htakes c hc hremoves
  · rcases step_unsent hstep hid with hid | hissued
    · exact h.unowed hid
    · rcases issued_from hstep hissued with ⟨hnew, -⟩ | ⟨r, hr, hrid, hstatus⟩
      · exact absurd (hsound.fresh b hb) (hnew ▸ Nat.lt_irrefl _)
      · obtain rfl := hsound.db.eq_of_id hr hb hrid
        rcases hstatus with hstatus | hstatus <;> cases hcanceled.symm.trans hstatus
  · rcases step_entries hstep hx with hold | howed
    · obtain ⟨c, hc, hremoves⟩ := h.removed x hold hfields
      rcases step_removes hstep hc hremoves with hc | hgone | hfails
      · exact ⟨c, hc, hremoves⟩
      · exact absurd rfl (hgone x hx)
      · exact absurd rfl (hcond.2 x.id hfails x hold)
    · exact absurd (hfields ▸ howed) h.unowed

/-- Nobody takes up a canceled analysis. -/
structure CanceledLetGo (w : World) : Prop where
  sound : w.Sound
  letGo : ∀ r ∈ w.db.analyses, r.status = .canceled → w.LetGo r.id

theorem CanceledLetGo.empty : CanceledLetGo {} := ⟨World.Sound.empty, by simp⟩

theorem CanceledLetGo.step (h : CanceledLetGo w) (hcond : CancelsInTurn w a)
    (hstep : step cfg w a = some w') : CanceledLetGo w' := by
  refine ⟨h.sound.step hstep, fun r hr hcanceled => ?_⟩
  obtain ⟨b, hb, hid, hold | ⟨userId, rfl, hguard⟩⟩ := canceled_of_step hstep hr hcanceled
  · exact hid ▸ (h.letGo b hb hold).step h.sound hb hold hcond.2 hstep
  · rw [← hid] at hguard hstep ⊢
    exact (hcond.1 (userId, r.id) rfl b hb (hid ▸ hguard)).letGo h.sound hb hguard hstep

/-- The row of the id is canceled, and the id is taken. -/
structure IsCanceled (w : World) (id : AnalysisId) : Prop where
  status : w.db.OnlyStatus id .canceled
  taken : id < w.nextUuid

/-- **A canceled row stays canceled** over a step of a system that holds none. -/
theorem IsCanceled.step {id : AnalysisId} (h : CanceledLetGo w) (hid : IsCanceled w id)
    (hstep : step cfg w a = some w') : IsCanceled w' id := by
  constructor
  · intro r hr hrid
    rcases step_row hstep hr with hr | ⟨e, s, hplan, hs, ⟨b, hb, hbr⟩ | hins⟩
    · exact hid.status r hr hrid
    · have hbid : b.id = id := (onRow_id hbr).symm.trans hrid
      have hb' := hid.status b hb hbid
      rcases onRow_status hbr with heq | hmove
      · exact heq ▸ hb'
      · by_cases hapi : a.ofApi
        · -- the API moves a row out of `failed` or to `canceled` only
          have hwrites := plan_apiWrites hplan hapi hs
          generalize r.status = status at hmove ⊢
          cases hmove with
          | cancel => rfl
          | retry hguard | retryToWaitingForReference hguard =>
            rw [(Analysis.retryable_iff.mp hguard).2.2] at hb'
            cases hb'
          | _ => cases hwrites
        · rcases (plan_workerWrites hplan (by simpa using hapi) hs).moves hmove with hheld | hwait
          · exact absurd hheld (h.letGo b hb hb').held
          · rw [hwait] at hb'
            cases hb'
    · obtain ⟨heq, -⟩ := plan_newId hplan hs (inserted_id hins).1
      have htaken := hid.taken
      rw [← hrid, heq] at htaken
      exact absurd htaken (Nat.lt_irrefl _)
  · rcases step_cases hstep with hlife | ⟨e, -, rfl⟩
    · rw [(lifecycle_untouched hlife).nextUuid]
      exact hid.taken
    · exact hid.taken.trans_le (Nat.le_add_right _ _)

/-! ## Stored entries -/

/-- **Tickets make a stored analysis removable**: its entry is its only ticket, so nobody is
to append another one and no other entry is in the stream. -/
theorem World.Stored.removable {r : Analysis} (hsound : TicketsSound w)
    (hr : r ∈ w.db.analyses) {userId : UserId} (hguard : r.cancelable r.id userId)
    (h : w.Stored r) : w.Removable r := by
  obtain ⟨hheld, hretires, hstored⟩ := h
  have hlive : ∀ y ∈ w.run.entries, y.fields = r.id → y ∈ w.sent := fun y hy hfields =>
    List.mem_filter.mpr ⟨hy, decide_eq_true fun heq => hretires y hy heq hfields⟩
  have hone := hsound.once r.id
  rw [World.tickets] at hone
  refine ⟨hheld, fun howed => ?_, fun y hy hfields => ?_⟩
  · have hcount := List.count_pos_iff.mpr howed
    rcases (Analysis.cancelable_iff.mp hguard).2.2 with hq | hwait
    · obtain ⟨x, hx, hname⟩ := hstored hq
      have hfields := (hsound.rowNames r hr x.id hname).fields x (World.mem_run_of_sent hx) rfl
      have hentry : 0 < w.sent.countP fun y => y.fields = r.id :=
        List.countP_pos_iff.mpr ⟨x, hx, decide_eq_true hfields⟩
      omega
    · have hzero := hsound.settled r hr (Or.inl hwait)
      rw [World.tickets] at hzero
      omega
  · have hsent := hlive y hy hfields
    rcases (Analysis.cancelable_iff.mp hguard).2.2 with hq | hwait
    · obtain ⟨x, hx, hname⟩ := hstored hq
      have hown := (hsound.rowNames r hr x.id hname).fields x (World.mem_run_of_sent hx) rfl
      have heq := eq_of_countP_le_one ((Nat.le_add_left _ _).trans hone) hsent hx
        (decide_eq_true hfields) (decide_eq_true hown)
      rw [heq]
      exact hname
    · have hzero := hsound.settled r hr (Or.inl hwait)
      have hpos := tickets_pos_of_sent hsent
      rw [hfields, hzero] at hpos
      exact absurd hpos (Nat.lt_irrefl _)

/-- Runs in which every `Cancel` finds its analysis stored have their cancels in turn. -/
theorem CancelsStored.inTurn {actions : List Action}
    (hmeets : Meets (step cfg) CancelsStored {} actions) :
    Meets (step cfg) CancelsInTurn {} actions := by
  refine meets_of_invariant TicketsSound (fun s a s' h hcond hs => h.step hcond.1 hs)
    (fun s a _ h hcond _ => ⟨fun p hp r hr hguard => ?_, hcond.2.2⟩) TicketsSound.empty hmeets
  have hid := (Analysis.cancelable_iff.mp hguard).1
  exact (hcond.2.1 p hp r hr hguard).removable h hr (hid.symm ▸ hguard)

/-! ## Every run -/

/-- **When `canceled` is absorbing.**  In every run from the empty system in which cancels
come in their turn, an analysis that is canceled at some point is canceled in every later
state; and they do in every run that keeps its tickets, cancels waiting analyses and ones
whose stored entry is in the stream, and removes the entry before it is delivered. -/
theorem canceled_absorbing (cfg : Config) :
    (∀ actions, Meets (step cfg) CancelsStored {} actions →
        Meets (step cfg) CancelsInTurn {} actions) ∧
      ∀ (before after : List Action) (w w' : World),
        Meets (step cfg) CancelsInTurn {} (before ++ after) →
        exec (step cfg) {} before = some w → exec (step cfg) w after = some w' →
        ∀ r ∈ w.db.analyses, r.status = .canceled → w'.db.OnlyStatus r.id .canceled := by
  refine ⟨fun _ => CancelsStored.inTurn, ?_⟩
  intro before after w w' hmeets hbefore hafter r hr hcanceled
  obtain ⟨hmeets₁, hmeets₂⟩ := meets_append hmeets hbefore
  have hclean : CanceledLetGo w :=
    invariant CanceledLetGo (fun s a s' h hcond hs => h.step hcond hs) CanceledLetGo.empty
      hmeets₁ hbefore
  have hid : IsCanceled w r.id := by
    refine ⟨fun b hb hbid => ?_, hclean.sound.fresh r hr⟩
    rw [hclean.sound.db.eq_of_id hb hr hbid]
    exact hcanceled
  have hlast : CanceledLetGo w' ∧ IsCanceled w' r.id := by
    refine invariant (fun w => CanceledLetGo w ∧ IsCanceled w r.id)
      (fun s a s' h hcond hs => ⟨h.1.step hcond hs, h.2.step h.1 hs⟩) ⟨hclean, hid⟩ hmeets₂ hafter
  exact hlast.2.status

/-- A queued analysis is canceled and its entry removed before the worker reads it. -/
def cancelsQueued : List Action :=
  preparesFirstSong ++ enqueuesReady 7 0 1 1 ++
    [.request (.cancel 7 1), .advance (.cancelRemove 1 1)]

/-- The next analysis is queued, delivered and started. -/
def servesNext : List Action :=
  .advance (.recalculate 1) :: enqueuesReady 8 0 2 2 ++ [.deliver, .work, .work, .work]

def canceledWhileQueued : World :=
  (exec (step defaultConfig) {} cancelsQueued).get (by decide +kernel)

def servedAfterCancel : World :=
  (exec (step defaultConfig) canceledWhileQueued servesNext).get (by decide +kernel)

theorem canceled_absorbing_cancelsQueued :
    servedAfterCancel.db.OnlyStatus 1 .canceled ∧ servedAfterCancel.db.OnlyStatus 2 .processing :=
  ⟨(canceled_absorbing defaultConfig).2 cancelsQueued servesNext canceledWhileQueued
    servedAfterCancel
    ((canceled_absorbing defaultConfig).1 (cancelsQueued ++ servesNext) (by decide +kernel))
    (Option.some_get _).symm (Option.some_get _).symm
    (canceledWhileQueued.db.analyses.head (by decide +kernel)) (List.head_mem _)
    (by decide +kernel), by decide +kernel⟩

/-- The worker has read the entry of a queued analysis when its owner cancels it. -/
def cancelsDelivered : List Action :=
  preparesFirstSong ++ enqueuesReady 7 0 1 1 ++
    [.deliver, .request (.cancel 7 1), .advance (.cancelRemove 1 1), .advance (.recalculate 1)]

/-- The handler marks the canceled analysis as processing. -/
theorem not_forall_canceled_absorbing :
    ¬ ∀ (before after : List Action) (w w' : World),
      exec (step defaultConfig) {} before = some w →
      exec (step defaultConfig) w after = some w' →
      ∀ r ∈ w.db.analyses, r.status = .canceled → w'.db.OnlyStatus r.id .canceled := by
  intro h
  have hruns : ((exec (step defaultConfig) {} cancelsDelivered).bind fun w =>
      (exec (step defaultConfig) w [.work, .work, .work]).map fun w' =>
        decide (∀ r ∈ w.db.analyses, r.status = .canceled → w'.db.OnlyStatus r.id .canceled))
      = some false := by
    decide +kernel
  obtain ⟨w, hw, hrest⟩ := Option.bind_eq_some_iff.mp hruns
  obtain ⟨w', hw', hfalse⟩ := Option.map_eq_some_iff.mp hrest
  exact of_decide_eq_false hfalse (h cancelsDelivered [.work, .work, .work] w w' hw hw')

end VocalCoach
