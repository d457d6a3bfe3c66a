/-
# Entries of `songs:prep` that are given up on

What others may do while the process runs without getting in its way, and what the reclaim of
a start-up does with an entry that was delivered too often: it is recorded failed,
acknowledged and removed (`started_givesUp`), if its row is listed and its message there.
-/
import VocalCoach.PrepCounts

namespace VocalCoach

open RedisStream Program Machine

variable {around : Surroundings} {s s₀ t : Site} {consumerName : ℕ}

/-! ## Calm surroundings -/

/-- The event publishes to the stream. -/
def Event.publishes (name : StreamName) : Event → Bool
  | .publish stream _ => stream = name
  | _ => false

/-- The event removes a message of the stream. -/
def Event.removes (name : StreamName) : Event → Bool
  | .remove stream _ => stream = name
  | _ => false

/-- Nothing is published to `analyses:run`. -/
def Surroundings.NoAnalyses (around : Surroundings) : Prop :=
  ∀ clock, ∀ e ∈ around.events clock, e.publishes .analysesRun = false

/-- No message of `songs:prep` is removed. -/
def Surroundings.KeepsMessages (around : Surroundings) : Prop :=
  ∀ clock, ∀ e ∈ around.events clock, e.removes .songsPrep = false

/-- Every entry of `analyses:run` is delivered. -/
def Site.Idle (s : Site) : Prop := (s.stream .analysesRun).undelivered = []

theorem Site.Idle.event {e : Event} (h : s.Idle) (he : e.publishes .analysesRun = false) :
    (s.event e).Idle := by
  cases e with
  | sleep seconds => exact h
  | signal => exact h
  | publish name fields =>
    cases name with
    | analysesRun => cases he
    | songsPrep => exact h
  | remove name entry =>
    cases name with
    | songsPrep => exact h
    | analysesRun =>
      rw [Idle, List.eq_nil_iff_forall_not_mem]
      intro x hx
      obtain ⟨hmem, hlt⟩ := Stream.mem_undelivered.mp hx
      have hold : x ∈ (s.stream .analysesRun).undelivered :=
        Stream.mem_undelivered.mpr ⟨List.mem_of_mem_filter hmem, hlt⟩
      rw [h] at hold
      cases hold

theorem mem_entries_event {e : Event} {x : Entry (Option JobId)}
    (hx : x ∈ (s.stream .songsPrep).entries) (he : e.removes .songsPrep = false) :
    x ∈ ((s.event e).stream .songsPrep).entries := by
  cases e with
  | sleep seconds => exact hx
  | signal => exact hx
  | publish name fields =>
    cases name with
    | analysesRun => exact hx
    | songsPrep => exact List.mem_append_left _ hx
  | remove name entry =>
    cases name with
    | analysesRun => exact hx
    | songsPrep => cases he

theorem Site.Idle.happen {events : List Event} (h : s.Idle)
    (hevents : ∀ e ∈ events, e.publishes .analysesRun = false) : (s.happen events).Idle := by
  induction events generalizing s with
  | nil => exact h
  | cons e events ih =>
    exact ih (h.event (hevents e List.mem_cons_self)) fun a ha =>
      hevents a (List.mem_cons_of_mem e ha)

theorem mem_entries_happen {events : List Event} {x : Entry (Option JobId)}
    (hx : x ∈ (s.stream .songsPrep).entries) (hevents : ∀ e ∈ events, e.removes .songsPrep = false) :
    x ∈ ((s.happen events).stream .songsPrep).entries := by
  induction events generalizing s with
  | nil => exact hx
  | cons e events ih =>
    exact ih (mem_entries_event hx (hevents e List.mem_cons_self)) fun a ha =>
      hevents a (List.mem_cons_of_mem e ha)

theorem mem_entries_meanwhile (hkeeps : around.KeepsMessages) {x : Entry (Option JobId)}
    (hx : x ∈ (s.stream .songsPrep).entries) :
    x ∈ ((s.meanwhile around).stream .songsPrep).entries := by
  have hhappen := mem_entries_happen hx (hkeeps s.clock)
  exact hhappen

theorem stable_before (hkeeps : around.KeepsMessages) {entry : ℕ} :
    Stable around (Site.Before entry s₀) := by
  intro s hs
  obtain ⟨fields, hmessage⟩ := hs.message
  exact hs.meanwhile (Site.meanwhile_meanwhile around s)
    ⟨fields, mem_entries_meanwhile hkeeps hmessage⟩

/-! ## Giving up at the start-up -/

/-- The row of an entry of `songs:prep` and its message, which has a `job_id`. -/
structure Site.Overdue (d : Delivery) (job : JobId) (s : Site) : Prop where
  sound : s.Sound
  row : d ∈ (s.stream .songsPrep).pending
  message : ⟨d.id, some job⟩ ∈ (s.stream .songsPrep).entries

/-- The entry of `songs:prep` is recorded failed, acknowledged and removed. -/
structure Site.GivenUp (entry : ℕ) (s : Site) : Prop where
  recorded : (.songsPrep, entry) ∈ s.failed
  acknowledged : ∀ d ∈ (s.stream .songsPrep).pending, d.id ≠ entry
  removed : ∀ x ∈ (s.stream .songsPrep).entries, x.id ≠ entry
  old : entry ≤ (s.stream .songsPrep).lastId

theorem mem_xclaim_of_ne {s : Stream (Option JobId)} {d : Delivery} {consumer minIdle now id : ℕ}
    (hd : d ∈ s.pending) (hne : d.id ≠ id) : d ∈ (s.xclaim consumer minIdle now id).pending := by
  unfold Stream.xclaim
  split_ifs
  · exact hd
  · exact List.mem_filter.mpr ⟨hd, decide_eq_true hne⟩
  · exact List.mem_map.mpr ⟨d, hd, if_neg hne⟩

theorem id_of_mem_xclaim {s : Stream (Option JobId)} {d : Delivery} {consumer minIdle now id : ℕ}
    (hd : d ∈ (s.xclaim consumer minIdle now id).pending) : ∃ r ∈ s.pending, r.id = d.id := by
  unfold Stream.xclaim at hd
  split_ifs at hd
  · exact ⟨d, hd, rfl⟩
  · exact ⟨d, List.mem_of_mem_filter hd, rfl⟩
  · obtain ⟨r, hr, rfl⟩ := List.mem_map.mp hd
    refine ⟨r, hr, ?_⟩
    split_ifs with hid
    · exact hid
    · rfl

/-- What leaves the stream as it is, and the records. -/
theorem Site.GivenUp.of_stream {entry : ℕ} (h : s.GivenUp entry) (hfailed : s.failed ⊆ t.failed)
    (hstream : t.stream .songsPrep = s.stream .songsPrep) : t.GivenUp entry :=
  ⟨hfailed h.recorded, hstream ▸ h.acknowledged, hstream ▸ h.removed, hstream ▸ h.old⟩

/-- Commands that bring no row and no message back. -/
theorem Site.GivenUp.update {entry : ℕ} (h : s.GivenUp entry)
    {f : Stream (Option JobId) → Stream (Option JobId)}
    (hentries : (f (s.stream .songsPrep)).entries ⊆ (s.stream .songsPrep).entries)
    (hpending : ∀ d ∈ (f (s.stream .songsPrep)).pending,
      (∃ r ∈ (s.stream .songsPrep).pending, r.id = d.id) ∨
        ∃ x ∈ (s.stream .songsPrep).entries, x.id = d.id)
    (hlast : (f (s.stream .songsPrep)).lastId = (s.stream .songsPrep).lastId) :
    (s.update .songsPrep f).GivenUp entry := by
  refine ⟨(Site.failed_update f).symm ▸ h.recorded, fun d hd => ?_, fun x hx => ?_, ?_⟩
  · rw [Site.stream_update_self] at hd
    rcases hpending d hd with ⟨r, hr, hid⟩ | ⟨x, hx, hid⟩
    · exact hid ▸ h.acknowledged r hr
    · exact hid ▸ h.removed x hx
  · rw [Site.stream_update_self] at hx
    exact h.removed x (hentries hx)
  · rw [Site.stream_update_self, hlast]
    exact h.old

/-- **An entry stays given up**, whatever the consumer does next. -/
theorem Site.GivenUp.respects {c : Consumer} (hc : c.streamName = .songsPrep) (entry : ℕ) :
    c.Respects around (Site.GivenUp entry) where
  stable := stable_of_meanwhile fun s t h hst =>
    { recorded := hst.failed ▸ h.recorded
      acknowledged := fun d hd => h.acknowledged d (hst.pending .songsPrep ▸ hd)
      removed := fun x hx hid => (hst.entries .songsPrep x hx).elim
        (fun hold => h.removed x hold hid) fun hlt => absurd (hid ▸ hlt) (Nat.not_lt_of_le h.old)
      old := h.old.trans (hst.lastId_le .songsPrep) }
  log _ _ h := h.of_stream (fun _ hx => hx) Site.stream_log
  recorded _ _ h := h.of_stream (fun _ hx => List.mem_append_left _ hx) Site.stream_recorded
  xack s _ h := hc ▸ h.update (fun _ hx => hx)
    (fun d hd => Or.inl ⟨d, List.mem_of_mem_filter hd, rfl⟩) rfl
  xdel s _ h := hc ▸ h.update (fun _ hx => List.mem_of_mem_filter hx)
    (fun d hd => Or.inl ⟨d, hd, rfl⟩) rfl
  xreadgroup s _ _ h := hc ▸ h.update (fun _ hx => hx) (fun d hd => by
    rcases List.mem_append.mp hd with hd | hnew
    · exact Or.inl ⟨d, hd, rfl⟩
    · obtain ⟨x, hx, rfl⟩ := List.mem_map.mp hnew
      exact Or.inr ⟨x, (Stream.mem_of_newEntries hx).1, rfl⟩) rfl
  xclaim s _ _ _ h := by
    obtain ⟨hentries, hlast, -⟩ := Stream.xclaim_entries (s.stream .songsPrep) _ _ s.now _
    rw [hc]
    exact h.update (fun _ hx => hentries ▸ hx) (fun d hd => Or.inl (id_of_mem_xclaim hd)) hlast

theorem stable_overdue (hkeeps : around.KeepsMessages) {d : Delivery} {job : JobId} :
    Stable around (Site.Overdue d job) := by
  intro s h
  have hst := Site.meanwhile_meanwhile around s
  exact ⟨h.sound.meanwhile hst, (hst.pending .songsPrep).symm ▸ h.row,
    mem_entries_meanwhile hkeeps h.message⟩

/-- What leaves the stream as it is. -/
theorem Site.Overdue.of_stream {d : Delivery} {job : JobId} (h : s.Overdue d job) (ht : t.Sound)
    (hstream : t.stream .songsPrep = s.stream .songsPrep) : t.Overdue d job :=
  ⟨ht, hstream ▸ h.row, hstream ▸ h.message⟩

/-- Commands about another entry. -/
theorem Site.Overdue.of_update {d : Delivery} {job : JobId}
    {f : Stream (Option JobId) → Stream (Option JobId)} (hsound : (s.update .songsPrep f).Sound)
    (hrow : d ∈ (f (s.stream .songsPrep)).pending)
    (hmessage : ⟨d.id, some job⟩ ∈ (f (s.stream .songsPrep)).entries) :
    (s.update .songsPrep f).Overdue d job := by
  refine ⟨hsound, ?_, ?_⟩ <;> rwa [Site.stream_update_self]

theorem keeps_reclaimOne_overdue {c : Consumer} (hc : c.streamName = .songsPrep)
    (hkeeps : around.KeepsMessages) {d r : Delivery} {job : JobId} (hne : d.id ≠ r.id) :
    Keeps (Site.Overdue d job) (c.reclaimOne around r) := by
  have hstable : Stable around (Site.Overdue d job) := stable_overdue hkeeps
  have hsound := Site.Sound.respects around c
  have hlog : ∀ s, Site.Overdue d job s → (s.log c.streamName r.id).Overdue d job :=
    fun s h => h.of_stream (hsound.log s r.id h.sound) Site.stream_log
  have hrecorded : ∀ s, Site.Overdue d job s → (s.recorded c.streamName r.id).Overdue d job :=
    fun s h => h.of_stream (hsound.recorded s r.id h.sound) Site.stream_recorded
  have hack : ∀ s, Site.Overdue d job s →
      (s.update c.streamName (Stream.xack r.id)).Overdue d job := by
    intro s h
    have hafter := hsound.xack s r.id h.sound
    rw [hc] at hafter ⊢
    exact .of_update hafter (List.mem_filter.mpr ⟨h.row, decide_eq_true hne⟩) h.message
  have hdel : ∀ s, Site.Overdue d job s →
      (s.update c.streamName (Stream.xdel r.id)).Overdue d job := by
    intro s h
    have hafter := hsound.xdel s r.id h.sound
    rw [hc] at hafter ⊢
    exact .of_update hafter h.row (List.mem_filter.mpr ⟨h.message, decide_eq_true hne⟩)
  refine triple_ite (fun _ => Consumer.triple_giveUp hstable hstable hrecorded hack hdel
    (fun _ h => h) fun _ h => h) fun _ => ?_
  refine Keeps.bind (keeps_operate hstable fun s h => ?_) fun claimed => ?_
  · have hafter := hsound.xclaim s c.consumerName c.reclaimMinIdleSeconds r.id h.sound
    obtain ⟨hentries, -⟩ := Stream.xclaim_entries (s.stream .songsPrep) c.consumerName
      c.reclaimMinIdleSeconds s.now r.id
    rw [hc] at hafter ⊢
    exact .of_update hafter (mem_xclaim_of_ne h.row hne) (hentries.symm ▸ h.message)
  · cases claimed with
    | none => exact keeps_pure ()
    | some fields =>
      exact Consumer.triple_processEntry hstable hstable hstable hlog hack hdel
        (fun _ _ _ h => h) (fun _ h => h) (fun _ h => h) fun _ h => h

/-- **`_give_up` records, acknowledges and removes.** -/
theorem triple_giveUp_overdue {c : Consumer} (hc : c.streamName = .songsPrep)
    (hkeeps : around.KeepsMessages) {d : Delivery} {job : JobId} :
    Triple (Site.Overdue d job) (c.giveUp around d.id) (fun _ => Site.GivenUp d.id)
      fun _ => True := by
  have hstable : Stable around (Site.Overdue d job) := stable_overdue hkeeps
  have hfailed : Stable around fun s => (.songsPrep, d.id) ∈ s.failed :=
    stable_of_meanwhile fun s t h hst => hst.failed ▸ h
  have hfound : Triple (Site.Overdue d job) (c.fieldsFor around d.id)
      (fun found s => found = some (some job) ∧ s.Overdue d job) fun _ => True := by
    refine triple_operate hstable (fun s h => ⟨?_, h⟩) fun _ _ => trivial
    obtain ⟨fields, hfields⟩ := Option.isSome_iff_exists.mp (Stream.xrange_isSome h.message)
    have hsame := (h.sound.ordered .songsPrep).eq_of_id (Stream.mem_of_xrange hfields) h.message rfl
    rw [hc, hfields]
    exact congrArg (fun e => some e.fields) hsame
  have hrecord : Triple (Site.Overdue d job) (c.recordGiveUp around d.id (some (some job)))
      (fun _ s => (.songsPrep, d.id) ∈ s.failed ∧ s.Overdue d job) fun _ => True := by
    refine triple_perform hstable (fun s h => ?_) fun _ _ => trivial
    rw [hc]
    exact ⟨List.mem_append_right _ List.mem_cons_self,
      h.of_stream (h.sound.of_streams fun _ => Site.stream_recorded) Site.stream_recorded⟩
  refine hfound.bind fun found => triple_of_imp fun hmessage => ?_
  rw [hmessage]
  refine hrecord.bind fun _ => Consumer.triple_ackAndRemove
    (A := fun s => (.songsPrep, d.id) ∈ s.failed ∧
      (∀ r ∈ (s.stream .songsPrep).pending, r.id ≠ d.id) ∧ d.id ≤ (s.stream .songsPrep).lastId)
    (fun s h => ⟨hfailed s h.1, hstable s h.2⟩) (fun s h => ?_) (fun s h => ?_) (fun s h => ?_)
    (fun _ _ => trivial) fun _ _ => trivial
  · have hst := Site.meanwhile_meanwhile around s
    exact ⟨hfailed s h.1, fun r hr => h.2.1 r (hst.pending .songsPrep ▸ hr),
      h.2.2.trans (hst.lastId_le .songsPrep)⟩
  · have hordered := h.2.sound.ordered .songsPrep
    rw [hc, Site.stream_update_self, Site.failed_update]
    exact ⟨h.1, fun r hr => of_decide_eq_true (List.mem_filter.mp hr).2,
      (hordered.pending_le d h.2.row).trans hordered.delivered_le⟩
  · rw [hc]
    refine ⟨(Site.failed_update _).symm ▸ h.1, ?_, ?_, ?_⟩ <;> rw [Site.stream_update_self]
    · exact h.2.1
    · exact fun x hx => of_decide_eq_true (List.mem_filter.mp hx).2
    · exact h.2.2

theorem triple_reclaimEach_overdue {c : Consumer} (hc : c.streamName = .songsPrep)
    (hkeeps : around.KeepsMessages) {d : Delivery} {job : JobId}
    (hlimit : c.maxClaimAttempts < d.timesDelivered) {pending : List Delivery} (hmem : d ∈ pending)
    (hnodup : (pending.map Delivery.id).Nodup) :
    Triple (Site.Overdue d job) (c.reclaimEach around pending) (fun _ => Site.GivenUp d.id)
      fun _ => True := by
  induction pending with
  | nil => cases hmem
  | cons r pending ih =>
    rw [List.map_cons, List.nodup_cons] at hnodup
    rcases List.mem_cons.mp hmem with rfl | hrest
    · have hone : c.reclaimOne around d = c.giveUp around d.id := if_pos hlimit
      have hafter := (@Site.GivenUp.respects around c hc d.id).reclaimEach pending
      refine Triple.bind (hone ▸ triple_giveUp_overdue hc hkeeps) fun _ => ?_
      exact hafter.weaken (fun _ h => h) (fun _ _ h => h) fun _ _ => trivial
    · have hne : d.id ≠ r.id := fun hid => hnodup.1 (hid ▸ List.mem_map_of_mem hrest)
      refine Triple.bind ((keeps_reclaimOne_overdue hc hkeeps hne).weaken (fun _ h => h)
        (fun _ _ h => h) fun _ _ => trivial) fun _ => ih hrest hnodup.2

/-- An entry the start-up is to look at. -/
structure Site.Due (d : Delivery) (job : JobId) (s : Site) : Prop where
  overdue : s.Overdue d job
  idle : songsPrepPendingClaimMinIdle ≤ d.idle s.now
  few : (s.stream .songsPrep).pending.length ≤ reclaimBatchSize

theorem Site.Due.of_stream {d : Delivery} {job : JobId} (h : s.Due d job) (ht : t.Sound)
    (hstream : t.stream .songsPrep = s.stream .songsPrep) (hnow : t.now = s.now) : t.Due d job :=
  ⟨h.overdue.of_stream ht hstream, hnow ▸ h.idle, hstream ▸ h.few⟩

/-- The consumer of the other stream leaves it to be looked at. -/
theorem respects_due {c : Consumer} (hc : c.streamName = .analysesRun)
    (hkeeps : around.KeepsMessages) {d : Delivery} {job : JobId} :
    c.Respects around (Site.Due d job) := by
  have hne : StreamName.songsPrep ≠ c.streamName := by rw [hc]; exact nofun
  have hsound := Site.Sound.respects around c
  refine .of_update (fun s h => h.overdue.sound) (fun s h => ?_)
    (fun s entry h => h.of_stream (hsound.log s entry h.overdue.sound) Site.stream_log rfl)
    (fun s entry h =>
      h.of_stream (hsound.recorded s entry h.overdue.sound) Site.stream_recorded rfl)
    fun s f h ht => h.of_stream ht (Site.stream_update_of_ne f hne) (Site.now_update f)
  have hst := Site.meanwhile_meanwhile around s
  exact ⟨stable_overdue hkeeps s h.overdue,
    h.idle.trans (Nat.sub_le_sub_right hst.now_le _), (hst.pending .songsPrep).symm ▸ h.few⟩

/-- `XPENDING` lists it, and every id once. -/
theorem Site.Due.listed {d : Delivery} {job : JobId} (h : s.Due d job) :
    d ∈ (s.stream .songsPrep).xpending none songsPrepPendingClaimMinIdle s.now reclaimBatchSize ∧
      (((s.stream .songsPrep).xpending none songsPrepPendingClaimMinIdle s.now
        reclaimBatchSize).map Delivery.id).Nodup := by
  unfold Stream.xpending
  constructor
  · rw [List.take_of_length_le ((List.length_filter_le _ _).trans h.few)]
    exact List.mem_filter.mpr ⟨h.overdue.row, decide_eq_true ⟨h.idle, Or.inl rfl⟩⟩
  · have hsub := (List.take_sublist reclaimBatchSize _).trans (List.filter_sublist (p := fun r =>
      decide (songsPrepPendingClaimMinIdle ≤ r.idle s.now ∧
        ((none : Option ℕ) = none ∨ none = some r.consumer)))
      (l := (s.stream .songsPrep).pending))
    have hsorted := (h.overdue.sound.sorted .songsPrep).sublist hsub
    exact List.pairwise_map.mpr (hsorted.imp fun hlt => Nat.ne_of_lt hlt)

/-- **A start-up gives up on what was delivered too often.** -/
theorem triple_startUp_givenUp (hkeeps : around.KeepsMessages) {d : Delivery} {job : JobId}
    (hlimit : maxClaimAttempts < d.timesDelivered) :
    Triple (Site.Due d job) ((Scheduler.ofConsumer consumerName).startUp around)
      (fun _ => Site.GivenUp d.id) fun _ => True := by
  have hanalyses : (Consumer.analyses consumerName).Respects around (Site.Due d job) :=
    respects_due rfl hkeeps
  refine Triple.bind (hanalyses.reclaimStuckJobs.weaken (fun _ h => h) (fun _ _ h => h)
    fun _ _ => trivial) fun _ => ?_
  have hlist : Triple (Site.Due d job)
      (operate around fun s => ((s.stream .songsPrep).xpending none songsPrepPendingClaimMinIdle
        s.now reclaimBatchSize, s))
      (fun l s => (d ∈ l ∧ (l.map Delivery.id).Nodup) ∧ s.Overdue d job) fun _ => True :=
    triple_operate hanalyses.stable (fun s h => ⟨h.listed, h.overdue⟩) fun _ _ => trivial
  refine hlist.bind fun pending => triple_of_imp fun hlisted => ?_
  exact triple_reclaimEach_overdue rfl hkeeps hlimit hlisted.1 hlisted.2

/-- From `p` to `t` every entry of `songs:prep` that was delivered more often than the limit,
and has idled long enough with its message there, is given up. -/
def Process.GivesUp (p t : Process) : Prop :=
  ∀ d ∈ p.site.songsPrep.pending, maxClaimAttempts < d.timesDelivered →
    songsPrepPendingClaimMinIdle ≤ d.idle p.site.now →
    ∀ job, ⟨d.id, some job⟩ ∈ p.site.songsPrep.entries → t.site.GivenUp d.id

theorem started_givesUp {p p' : Process} (hp : p.Sound)
    (hstep : queueStep p (.start consumerName around) = some p') (hup : p'.scheduler.isSome)
    (hkeeps : around.KeepsMessages)
    (hfew : p.site.songsPrep.pending.length ≤ reclaimBatchSize) : p.GivesUp p' := by
  intro d hd hlimit hidle job hmessage
  rw [queueStep, Option.ite_none_right_eq_some] at hstep
  obtain ⟨-, hstep⟩ := hstep
  change some (Process.ran (.ofConsumer consumerName)
    ((Scheduler.ofConsumer consumerName).startUp around p.site.starting)) = some p' at hstep
  have hdue : p.site.starting.Due d job :=
    ⟨⟨hp.site.of_streams fun _ => Site.stream_starting, hd, hmessage⟩, hidle, hfew⟩
  have hpost := (triple_startUp_givenUp hkeeps hlimit :
    Triple _ ((Scheduler.ofConsumer consumerName).startUp around) _ _) _ hdue
  generalize (Scheduler.ofConsumer consumerName).startUp around p.site.starting = r at hpost hstep
  cases hstep
  obtain ⟨_ | _, s⟩ := r
  · cases hup
  · exact hpost

end VocalCoach
