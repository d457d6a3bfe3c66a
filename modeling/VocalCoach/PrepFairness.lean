/-
# Fairness among the entries of `songs:prep`

While `analyses:run` is idle, an iteration of the loop processes an entry of `songs:prep`
whenever this consumer has one pending whose message is there.  No entry is processed more
often than the give-up limit, so one that stays pending sees only so many iterations
(`prep_boundedAndFair`): the limit times the messages there are and those published since.

Both need what the loop itself does not ensure: that the messages of the pending rows are
there, and that the handler finishes an entry by its last attempt.
-/
import VocalCoach.PrepGiveUps
import Mathlib.Algebra.Order.BigOperators.Group.Finset

namespace VocalCoach

open RedisStream Program Machine

variable {around : Surroundings} {s s₀ t : Site} {consumerName : ℕ}

/-! ## Choosing an entry -/

/-- The message of every row of this consumer is there. -/
def Site.Messages (consumerName : ℕ) (s : Site) : Prop :=
  ∀ d ∈ (s.stream .songsPrep).pending, d.consumer = consumerName →
    ∃ x ∈ (s.stream .songsPrep).entries, x.id = d.id

instance (s : Site) : Decidable (s.Messages consumerName) :=
  inferInstanceAs (Decidable (∀ d ∈ _, _ → ∃ x ∈ _, _))

/-- No entry has been processed since the top of the loop. -/
structure Site.Ready (consumerName : ℕ) (s₀ s : Site) : Prop where
  sound : s.Sound
  counted : s.Counted
  since : s₀.Since s
  kept : (s₀.stream .songsPrep).pending ⊆ (s.stream .songsPrep).pending
  processed : s.processed = s₀.processed
  idle : s.Idle
  messages : s.Messages consumerName

theorem stable_ready (hidle : around.NoAnalyses) (hkeeps : around.KeepsMessages) :
    Stable around (Site.Ready consumerName s₀) := by
  intro s hs
  have hst := Site.meanwhile_meanwhile around s
  refine ⟨hs.sound.meanwhile hst, hs.counted.meanwhile hst,
    hs.since.trans (Site.since_of_meanwhile hst), fun d hd => ?_, hst.processed.trans hs.processed,
    hs.idle.happen (hidle s.clock), fun d hd howner => ?_⟩
  · rw [hst.pending]
    exact hs.kept hd
  · rw [hst.pending] at hd
    obtain ⟨x, hx, hid⟩ := hs.messages d hd howner
    exact ⟨x, mem_entries_meanwhile hkeeps hx, hid⟩

/-- A read of an idle stream changes nothing. -/
theorem update_xreadgroup_idle (h : s.Idle) (consumer now count : ℕ) :
    s.update .analysesRun (Stream.xreadgroup consumer now count) = s := by
  have hnone : s.analysesRun.newEntries count = [] := by
    have hempty : s.analysesRun.undelivered = [] := h
    rw [Stream.newEntries, hempty, List.take_nil]
  have hsame : s.analysesRun.xreadgroup consumer now count = s.analysesRun := by
    rw [Stream.xreadgroup, hnone]
    simp
  rw [Site.update, hsame]

theorem triple_readNext_idle (hidle : around.NoAnalyses) (hkeeps : around.KeepsMessages) :
    Triple (Site.Ready consumerName s₀) ((Consumer.analyses consumerName).readNext around)
      (fun l s => l = [] ∧ s₀.Ready consumerName s) Site.Bounded := by
  refine triple_operate (stable_ready hidle hkeeps) (fun s hs => ⟨?_, ?_⟩)
    fun s hs => hs.counted.bounded
  · show (s.stream .analysesRun).newEntries 1 = []
    rw [Stream.newEntries, hs.idle, List.take_nil]
  · show s₀.Ready consumerName (s.update .analysesRun _)
    rwa [update_xreadgroup_idle hs.idle]

/-- **`claim_new_entries`** makes rows of messages only. -/
theorem Site.Ready.xreadgroup (h : Site.Ready consumerName s₀ s) (now count : ℕ) :
    Site.Ready consumerName s₀ (s.update .songsPrep (Stream.xreadgroup consumerName now count)) := by
  have hnew : ∀ d ∈ ((s.stream .songsPrep).xreadgroup consumerName now count).pending,
      d ∈ (s.stream .songsPrep).pending ∨ ∃ x ∈ (s.stream .songsPrep).entries,
        x.id = d.id ∧ (s.stream .songsPrep).lastDelivered < x.id := by
    intro d hd
    rcases List.mem_append.mp hd with hd | hd
    · exact Or.inl hd
    · obtain ⟨x, hx, rfl⟩ := List.mem_map.mp hd
      obtain ⟨hmem, hlt⟩ := Stream.mem_of_newEntries hx
      exact Or.inr ⟨x, hmem, rfl, hlt⟩
  have hordered := h.sound.ordered .songsPrep
  refine ⟨h.sound.update (fun hs => hs.xreadgroup consumerName now count)
    fun hs => hs.xreadgroup hordered consumerName now count,
    h.counted.update (fun _ hx => hx) (fun d hd => ?_) rfl,
    h.since.trans (since_update (fun _ hx => hx) (fun d hd => ?_) rfl
      (hordered.cursor consumerName now count).1),
    fun d hd => ?_, (processed_update _).trans h.processed, ?_, fun d hd howner => ?_⟩
  · exact (hnew d hd).imp_right fun ⟨x, hx, hid, _⟩ => ⟨x, hx, hid⟩
  · exact (hnew d hd).imp_right fun ⟨x, _, hid, hlt⟩ => hid ▸ hlt
  · rw [stream_update_self]
    exact List.mem_append_left _ (h.kept hd)
  · have hother : (s.update .songsPrep (Stream.xreadgroup consumerName now count)).stream
        .analysesRun = s.stream .analysesRun := rfl
    rw [Idle, hother]
    exact h.idle
  · rw [stream_update_self] at hd ⊢
    rcases hnew d hd with hold | ⟨x, hx, hid, -⟩
    · exact h.messages d hold howner
    · exact ⟨x, hx, hid⟩

/-- The rows of a list are this consumer's. -/
def Site.Lists (consumerName : ℕ) (l : List Delivery) (s : Site) : Prop :=
  ∀ d ∈ l, d ∈ (s.stream .songsPrep).pending ∧ d.consumer = consumerName

theorem stable_lists (hidle : around.NoAnalyses) (hkeeps : around.KeepsMessages)
    {l : List Delivery} :
    Stable around fun s => s.Lists consumerName l ∧ s₀.Ready consumerName s := by
  intro s hs
  refine ⟨fun d hd => ?_, stable_ready hidle hkeeps s hs.2⟩
  rw [(Site.meanwhile_meanwhile around s).pending]
  exact hs.1 d hd

/-- **`pending_entries`** is empty only if this consumer has no row at all. -/
theorem triple_pendingEntries (hidle : around.NoAnalyses) (hkeeps : around.KeepsMessages) :
    Triple (Site.Ready consumerName s₀) ((Consumer.songsPrep consumerName).pendingEntries around)
      (fun l s => (l = [] → ∀ d ∈ (s₀.stream .songsPrep).pending, d.consumer ≠ consumerName) ∧
        s.Lists consumerName l ∧ s₀.Ready consumerName s) Site.Bounded := by
  refine triple_operate (stable_ready hidle hkeeps) (fun s hs => ⟨fun hnone d hd howner => ?_,
    fun d hd => ?_, hs⟩) fun s hs => hs.counted.bounded
  · change ((s.stream .songsPrep).pending.filter _).take reclaimBatchSize = [] at hnone
    rw [List.take_eq_nil_iff] at hnone
    have hempty := hnone.resolve_left (by decide)
    have hmem := List.filter_eq_nil_iff.mp hempty d (hs.kept hd)
    exact hmem (decide_eq_true ⟨Nat.zero_le _, Or.inr (congrArg some howner.symm)⟩)
  · obtain ⟨hmem, hcond⟩ := List.mem_filter.mp (List.mem_of_mem_take hd)
    obtain ⟨-, hnone | hsome⟩ := of_decide_eq_true hcond
    · cases hnone
    · exact ⟨hmem, (Option.some.inj hsome).symm⟩

/-- **`fields_for`** finds the message of a row that is listed. -/
theorem triple_fieldsFor (hidle : around.NoAnalyses) (hkeeps : around.KeepsMessages) (d : Delivery)
    (l : List Delivery) :
    Triple (fun s => s.Lists consumerName (d :: l) ∧ s₀.Ready consumerName s)
      ((Consumer.songsPrep consumerName).fieldsFor around d.id)
      (fun found s => found ≠ none ∧ s₀.Before d.id s ∧ s.Lists consumerName l ∧
        s₀.Ready consumerName s) Site.Bounded := by
  refine triple_operate (stable_lists hidle hkeeps) (fun s hs => ?_) fun s hs => hs.2.counted.bounded
  obtain ⟨hlists, hready⟩ := hs
  obtain ⟨hpending, howner⟩ := hlists d List.mem_cons_self
  obtain ⟨⟨id, fields⟩, hx, hid⟩ := hready.messages d hpending howner
  obtain rfl : id = d.id := hid
  refine ⟨fun hnone => ?_, ⟨hready.sound, hready.counted, hready.since, hready.kept,
    hready.processed, fields, hx⟩, fun e he => hlists e (List.mem_cons_of_mem d he), hready⟩
  exact Stream.ne_of_xrange hnone hx rfl

/-! ## One iteration -/

/-- What an iteration needs of its surroundings. -/
structure Surroundings.Fair (around : Surroundings) (s₀ : Site) : Prop where
  idle : around.NoAnalyses
  keeps : around.KeepsMessages
  last : ∀ entry, maxClaimAttempts ≤ s₀.times entry + 1 →
    around.handle .songsPrep entry = .finished

/-- What the part of a tick about `songs:prep` leaves, by what it returns. -/
def Site.Ticked (consumerName : ℕ) (s₀ : Site) : Bool → Site → Prop
  | true, s => ∃ entry, s₀.Processed none entry s
  | false, s => s₀.Ready consumerName s ∧
      ∀ d ∈ (s₀.stream .songsPrep).pending, d.consumer ≠ consumerName

/-- Nothing was processed: the process is asked to stop, or this consumer has no row. -/
def Site.Unserved (consumerName : ℕ) (s₀ s : Site) : Prop :=
  s₀.Ready consumerName s ∧ (s.stopping = true ∨
    ∀ d ∈ (s₀.stream .songsPrep).pending, d.consumer ≠ consumerName)

section

variable (h : around.Fair s₀)
include h

theorem triple_processEntry_ticked (entry : ℕ) (fields : Option JobId) :
    Triple (Site.Before entry s₀) (do
        (Consumer.songsPrep consumerName).processEntry around entry fields
        pure true)
      (Site.Ticked consumerName s₀) Site.Bounded :=
  (triple_processEntry_counted rfl (stable_before h.keeps) (h.last entry)).bind fun _ =>
    triple_pure fun _ hs => ⟨entry, hs⟩

theorem triple_claimNewEntries_ready :
    Triple (Site.Ready consumerName s₀) ((Consumer.songsPrep consumerName).claimNewEntries around)
      (fun _ => Site.Ready consumerName s₀) Site.Bounded :=
  triple_perform (stable_ready h.idle h.keeps) (fun s hs => hs.xreadgroup s.now reclaimBatchSize)
    fun _ hs => hs.counted.bounded

/-- **`_process_next_prep`** processes an entry, if this consumer has one. -/
theorem triple_processNextPrep :
    Triple (Site.Ready consumerName s₀)
      ((Scheduler.ofConsumer consumerName).processNextPrep around)
      (Site.Ticked consumerName s₀) Site.Bounded := by
  refine (triple_claimNewEntries_ready h).bind fun _ => ?_
  refine (triple_pendingEntries h.idle h.keeps).bind fun pending => triple_of_imp fun hnone => ?_
  cases pending with
  | nil => exact triple_pure fun s hs => ⟨hs.2, hnone rfl⟩
  | cons d pending =>
    refine (triple_fieldsFor h.idle h.keeps d pending).bind fun found => triple_of_imp fun hsome => ?_
    cases found with
    | none => exact absurd rfl hsome
    | some fields =>
      exact (triple_processEntry_ticked h d.id fields).weaken (fun s hs => hs.1) (fun _ _ hs => hs)
        fun _ hs => hs

/-- The search for the entry an analysis waits for. -/
theorem triple_processMatching (songId : JobId) (pending : List Delivery) :
    Triple (fun s => s.Lists consumerName pending ∧ s₀.Ready consumerName s)
      ((Scheduler.ofConsumer consumerName).processMatching around songId pending)
      (fun found s => if found then s₀.Ticked consumerName true s else s₀.Ready consumerName s)
      Site.Bounded := by
  induction pending with
  | nil => exact triple_pure fun s hs => hs.2
  | cons d pending ih =>
    refine (triple_fieldsFor h.idle h.keeps d pending).bind fun found => triple_of_imp fun _ => ?_
    refine triple_ite (fun _ => ?_) fun _ => ih.weaken (fun s hs => hs.2) (fun _ _ hs => hs)
      fun _ hs => hs
    have hprocess : Triple (Site.Before d.id s₀)
        ((Consumer.songsPrep consumerName).processEntry around d.id (some songId))
        (fun _ => Site.Processed none d.id s₀) Site.Bounded :=
      triple_processEntry_counted rfl (stable_before h.keeps) (h.last d.id)
    refine Triple.bind (hprocess.weaken (fun s hs => hs.1) (fun _ _ hs => hs) fun _ hs => hs)
      fun _ => ?_
    exact triple_pure fun _ hs => ⟨d.id, hs⟩

/-- **The part of a tick about `songs:prep`** processes an entry, if this consumer has one. -/
theorem triple_tickPrep :
    Triple (Site.Ready consumerName s₀) ((Scheduler.ofConsumer consumerName).tickPrep around)
      (Site.Ticked consumerName s₀) Site.Bounded := by
  have hready : Stable around (Site.Ready consumerName s₀) := stable_ready h.idle h.keeps
  refine Triple.bind (Q := fun _ => Site.Ready consumerName s₀)
    (triple_operate hready (fun _ hs => hs) fun s hs => hs.counted.bounded) fun songId => ?_
  cases songId with
  | none => exact triple_processNextPrep h
  | some songId =>
    have hpriority : Triple (Site.Ready consumerName s₀)
        ((Scheduler.ofConsumer consumerName).processPriorityPrep around songId)
        (fun found s => if found then s₀.Ticked consumerName true s else s₀.Ready consumerName s)
        Site.Bounded := by
      refine (triple_claimNewEntries_ready h).bind fun _ => ?_
      refine (triple_pendingEntries h.idle h.keeps).bind fun pending => triple_of_imp fun _ => ?_
      exact triple_processMatching h songId pending
    refine hpriority.bind fun found => ?_
    cases found with
    | true => exact triple_pure fun s hs => hs
    | false => exact triple_processNextPrep h

theorem triple_readNext_unserved :
    Triple (Site.Unserved consumerName s₀) ((Consumer.analyses consumerName).readNext around)
      (fun l s => l = [] ∧ s₀.Unserved consumerName s) Site.Bounded := by
  have hstable : Stable around (Site.Unserved consumerName s₀) := fun s hs =>
    ⟨stable_ready h.idle h.keeps s hs.1,
      hs.2.imp_left (Site.meanwhile_meanwhile around s).stopping⟩
  refine triple_operate hstable (fun s hs => ⟨?_, ?_⟩) fun s hs => hs.1.counted.bounded
  · show (s.stream .analysesRun).newEntries 1 = []
    rw [Stream.newEntries, hs.1.idle, List.take_nil]
  · show s₀.Unserved consumerName (s.update .analysesRun _)
    rwa [update_xreadgroup_idle hs.1.idle]

/-- **An iteration processes an entry**, unless the process is asked to stop or this
consumer has none. -/
theorem triple_iterate_ready :
    Triple (Site.Ready consumerName s₀) ((Scheduler.ofConsumer consumerName).iterate around)
      (fun _ s => s₀.Ticked consumerName true s ∨ s₀.Unserved consumerName s) Site.Bounded := by
  have htick : Triple (Site.Ready consumerName s₀)
      ((Scheduler.ofConsumer consumerName).tick around)
      (fun found s => if found then s₀.Ticked consumerName true s else s₀.Unserved consumerName s)
      Site.Bounded := by
    refine Triple.bind triple_read_eq fun stopping => triple_ite (fun hstop => ?_) fun _ => ?_
    · exact triple_pure fun s hs => ⟨hs.2, Or.inl (hs.1.trans hstop)⟩
    · refine Triple.bind ((triple_readNext_idle h.idle h.keeps).weaken (fun s hs => hs.2)
        (fun _ _ hs => hs) fun _ hs => hs) fun entries => triple_of_imp fun hnone => ?_
      subst hnone
      refine (triple_tickPrep h).weaken (fun _ hs => hs) (fun found s hs => ?_) fun _ hs => hs
      cases found with
      | true => exact hs
      | false => exact ⟨hs.1, Or.inr hs.2⟩
  refine htick.bind fun found => ?_
  cases found with
  | true => exact triple_pure fun s hs => Or.inl hs
  | false =>
    refine Triple.bind (triple_readNext_unserved h) fun entries => triple_of_imp fun hnone => ?_
    subst hnone
    exact triple_pure fun s hs => Or.inr hs

end

/-! ## Many iterations -/

/-- What so many iterations leave, when they processed these entries. -/
structure Site.Iterated (consumerName : ℕ) (entries : List ℕ) (ticks : ℕ) (s₀ s : Site) : Prop where
  sound : s.Sound
  counted : s.Counted
  since : s₀.Since s
  processed : s.processed = s₀.processed ++ entries.map fun e => (.songsPrep, e)
  origin : ∀ e ∈ entries, (∃ x ∈ (s₀.stream .songsPrep).entries, x.id = e) ∨
    (s₀.stream .songsPrep).lastId < e ∧ e ≤ (s.stream .songsPrep).lastId
  kept : ∀ d ∈ (s₀.stream .songsPrep).pending, d.id ∉ entries → d ∈ (s.stream .songsPrep).pending
  busy : ∀ d ∈ (s₀.stream .songsPrep).pending, d.consumer = consumerName →
    d ∈ (s.stream .songsPrep).pending → entries.length = ticks

theorem Site.Iterated.refl (hsound : s.Sound) (hcounted : s.Counted) :
    Site.Iterated consumerName [] 0 s s :=
  ⟨hsound, hcounted, since_of_stream rfl, (List.append_nil _).symm, nofun, fun _ hd _ => hd,
    fun _ _ _ _ => rfl⟩

/-- A row of the first site that is still there was there in between. -/
theorem Site.Since.mem_pending {d : Delivery} (hs₀ : s₀.Sound) (h : s₀.Since s) (h' : s.Since t)
    (hd₀ : d ∈ (s₀.stream .songsPrep).pending) (hd : d ∈ (t.stream .songsPrep).pending) :
    d ∈ (s.stream .songsPrep).pending := by
  refine (h'.pending d hd).resolve_right fun hlt => ?_
  have hle := ((hs₀.ordered .songsPrep).pending_le d hd₀).trans h.lastDelivered_le
  exact absurd hlt (Nat.not_lt_of_le hle)

/-- **One more iteration at the front**: either it processed an entry, or this consumer had
no row. -/
theorem Site.Iterated.cons {entries : List ℕ} {ticks entry : ℕ} (hs₀ : s₀.Sound)
    (h : Site.Processed none entry s₀ s) (hrest : s.Iterated consumerName entries ticks t) :
    s₀.Iterated consumerName (entry :: entries) (ticks + 1) t := by
  refine ⟨hrest.sound, hrest.counted, h.since.trans hrest.since, ?_, fun e he => ?_,
    fun d hd hne => ?_, fun d hd₀ howner hd => ?_⟩
  · rw [hrest.processed, h.processed, List.append_assoc]
    rfl
  · rcases List.mem_cons.mp he with rfl | he
    · exact h.origin.imp_right fun hlt => ⟨hlt, h.le.trans hrest.since.lastId_le⟩
    · rcases hrest.origin e he with ⟨x, hx, rfl⟩ | ⟨hlt, hle⟩
      · rcases h.since.entries x hx with hx | hnew
        · exact Or.inl ⟨x, hx, rfl⟩
        · exact Or.inr ⟨hnew, ((h.sound.ordered .songsPrep).entries_le x hx).trans
            hrest.since.lastId_le⟩
      · exact Or.inr ⟨h.since.lastId_le.trans_lt hlt, hle⟩
  · rw [List.mem_cons, not_or] at hne
    exact hrest.kept d (h.kept d hd hne.1) hne.2
  · have hmid := h.since.mem_pending hs₀ hrest.since hd₀ hd
    rw [List.length_cons, hrest.busy d hmid howner hd]

theorem Site.Iterated.idle {entries : List ℕ} {ticks : ℕ}
    (h : s₀.Ready consumerName s)
    (hnone : ∀ d ∈ (s₀.stream .songsPrep).pending, d.consumer ≠ consumerName)
    (hrest : s.Iterated consumerName entries ticks t) :
    s₀.Iterated consumerName entries (ticks + 1) t := by
  refine ⟨hrest.sound, hrest.counted, h.since.trans hrest.since, h.processed ▸ hrest.processed,
    fun e he => ?_, fun d hd hne => hrest.kept d (h.kept hd) hne,
    fun d hd₀ howner _ => absurd howner (hnone d hd₀)⟩
  rcases hrest.origin e he with ⟨x, hx, rfl⟩ | ⟨hlt, hle⟩
  · rcases h.since.entries x hx with hx | hnew
    · exact Or.inl ⟨x, hx, rfl⟩
    · exact Or.inr ⟨hnew, ((h.sound.ordered .songsPrep).entries_le x hx).trans
        hrest.since.lastId_le⟩
  · exact Or.inr ⟨h.since.lastId_le.trans_lt hlt, hle⟩

/-- **The bound**: each entry uses up its attempts at most. -/
theorem Site.Iterated.length_le {entries : List ℕ} {ticks : ℕ}
    (h : s₀.Iterated consumerName entries ticks s) :
    entries.length ≤ maxClaimAttempts * ((s₀.stream .songsPrep).xlen +
      ((s.stream .songsPrep).lastId - (s₀.stream .songsPrep).lastId)) := by
  set published := (s.stream .songsPrep).lastId - (s₀.stream .songsPrep).lastId with hpublished
  set ids := (s₀.stream .songsPrep).entries.map Entry.id ++
    List.range' ((s₀.stream .songsPrep).lastId + 1) published with hids
  have hmem : entries.toFinset ⊆ ids.toFinset := by
    intro e he
    rw [List.mem_toFinset] at he ⊢
    rcases h.origin e he with ⟨x, hx, rfl⟩ | ⟨hlt, hle⟩
    · exact List.mem_append_left _ (List.mem_map_of_mem hx)
    · exact List.mem_append_right _ (List.mem_range'_1.mpr (by omega))
  have hcount : ∀ e ∈ entries.toFinset, entries.count e ≤ maxClaimAttempts := by
    intro e _
    have htimes := h.counted.bounded e
    rw [Site.times, h.processed, List.count_append] at htimes
    have hinj : Function.Injective fun e : ℕ => (StreamName.songsPrep, e) :=
      fun _ _ heq => (Prod.mk.inj heq).2
    rw [List.count_map_of_injective entries _ hinj e] at htimes
    exact (Nat.le_add_left _ _).trans htimes
  calc entries.length = ∑ e ∈ entries.toFinset, entries.count e :=
        (List.sum_toFinset_count_eq_length entries).symm
    _ ≤ entries.toFinset.card • maxClaimAttempts := Finset.sum_le_card_nsmul _ _ _ hcount
    _ ≤ ids.length * maxClaimAttempts :=
        Nat.mul_le_mul_right _ ((Finset.card_le_card hmem).trans (List.toFinset_card_le ids))
    _ = maxClaimAttempts * ((s₀.stream .songsPrep).xlen + published) := by
        rw [Nat.mul_comm, hids, List.length_append, List.length_map, List.length_range']
        rfl

/-! ## The run of a process -/

/-- `analyses:run` is idle. -/
def Process.AnalysesIdle (p : Process) : QueueAction → Prop
  | .iterate around => p.site.Idle ∧ around.NoAnalyses
  | _ => True

/-- The messages of this consumer's rows are there and stay there, and the handler finishes
an entry it is handed for the last time. -/
def Process.PrepCurable (consumerName : ℕ) (p : Process) : QueueAction → Prop
  | .iterate around => p.site.Messages consumerName ∧ around.KeepsMessages ∧
      ∀ entry, maxClaimAttempts ≤ p.site.times entry + 1 →
        around.handle .songsPrep entry = .finished
  | _ => True

/-- A bad entry is bounded, and starves nobody: from `t` to `p` the loop went round
`ticks` times. -/
structure Process.BoundedAndFair (consumerName ticks : ℕ) (t p : Process) : Prop where
  /-- No entry is processed more often than the limit. -/
  bounded : ∀ entry, p.site.times entry ≤ maxClaimAttempts
  /-- One that was is acknowledged and removed. -/
  acknowledged : p.atBoundary → ∀ entry, p.site.times entry = maxClaimAttempts →
    (∀ d ∈ p.site.songsPrep.pending, d.id ≠ entry) ∧ ∀ x ∈ p.site.songsPrep.entries, x.id ≠ entry
  /-- Every row of this consumer is processed, and gone, after so many ticks. -/
  served : p.atBoundary → ∀ d ∈ t.site.songsPrep.pending, d.consumer = consumerName →
    maxClaimAttempts *
      (t.site.songsPrep.xlen + (p.site.songsPrep.lastId - t.site.songsPrep.lastId)) < ticks →
    t.site.times d.id < p.site.times d.id ∧ ∀ d' ∈ p.site.songsPrep.pending, d'.id ≠ d.id

theorem iterate_inv {p p' : Process} (hstep : queueStep p (.iterate around) = some p') :
    p.atBoundary ∧ ∃ sched ∈ p.scheduler,
      p' = .ran sched (sched.iterate around p.site.again) := by
  obtain ⟨sched, hsched, hstep⟩ := Option.bind_eq_some_iff.mp hstep
  rw [Option.ite_none_left_eq_some, Bool.not_eq_true] at hstep
  obtain ⟨hstopping, hstep⟩ := hstep
  cases hstep
  exact ⟨⟨by rw [hsched]; rfl, hstopping⟩, sched, hsched, rfl⟩

/-- A process that is not at the top of its loop goes no further. -/
theorem eq_of_not_atBoundary {p p' : Process} {after : List Surroundings} (hp : ¬ p.atBoundary)
    (hrun : exec queueStep p (after.map .iterate) = some p') : p' = p := by
  cases after with
  | nil => exact (Option.some.inj hrun).symm
  | cons around after =>
    obtain ⟨u, hu, -⟩ := exec_cons.mp hrun
    exact absurd (iterate_inv hu).1 hp

/-- A process that is through its start-up has attempts left for every entry. -/
theorem started_counted {p p' : Process} (hp : p.Sound)
    (hstep : queueStep p (.start consumerName around) = some p') :
    p'.site.Bounded ∧ (∀ sched ∈ p'.scheduler, sched = .ofConsumer consumerName) ∧
      (p'.atBoundary → p'.site.Counted) := by
  rw [queueStep, Option.ite_none_right_eq_some] at hstep
  obtain ⟨-, hstep⟩ := hstep
  change some (Process.ran (.ofConsumer consumerName)
    ((Scheduler.ofConsumer consumerName).startUp around p.site.starting)) = some p' at hstep
  have hunprocessed : p.site.starting.Unprocessed :=
    ⟨hp.site.of_streams fun _ => Site.stream_starting, fun _ => rfl⟩
  have hpost := (triple_startUp_counted consumerName :
    Triple _ ((Scheduler.ofConsumer consumerName).startUp around) _ _) _ hunprocessed
  generalize (Scheduler.ofConsumer consumerName).startUp around p.site.starting = r at hpost hstep
  cases hstep
  obtain ⟨_ | _, s⟩ := r
  · exact ⟨hpost, by simp [Process.ran], fun h => by cases h.1⟩
  · refine ⟨hpost.bounded, ?_, fun _ => hpost⟩
    rintro sched ⟨⟩
    rfl

/-- The top of the loop is where the first operation starts. -/
theorem Site.Iterated.of_again {entries : List ℕ} {ticks : ℕ}
    (h : s₀.again.Iterated consumerName entries ticks s) :
    s₀.Iterated consumerName entries ticks s :=
  { h with since := (since_of_stream stream_again).trans h.since }

/-- **The run lemma**: what iterations have processed since a boundary. -/
theorem iterated_run {t p : Process} {after : List Surroundings}
    (hsound : t.Sound) (hsched : ∀ sched ∈ t.scheduler, sched = .ofConsumer consumerName)
    (hbounded : t.site.Bounded) (hcounted : t.atBoundary → t.site.Counted)
    (hmeets : Meets queueStep (fun q a => q.AnalysesIdle a ∧ q.PrepCurable consumerName a) t
      (after.map .iterate))
    (hrun : exec queueStep t (after.map .iterate) = some p) :
    p.site.Bounded ∧ (∀ sched ∈ p.scheduler, sched = .ofConsumer consumerName) ∧ 
      (p.atBoundary → ∃ entries, t.site.Iterated consumerName entries after.length p.site) := by
  induction after generalizing t with
  | nil =>
    obtain rfl : t = p := Option.some.inj hrun
    exact ⟨hbounded, hsched, fun hboundary => ⟨[], .refl hsound.site (hcounted hboundary)⟩⟩
  | cons around after ih =>
    obtain ⟨u, hu, hrest⟩ := exec_cons.mp hrun
    obtain ⟨⟨hidle, hmessages⟩, hnext⟩ := hmeets u hu
    have hsoundu := hsound.step hu
    obtain ⟨hboundary, sched, hmem, hstep⟩ := iterate_inv hu
    obtain rfl := hsched sched hmem
    have hsoundt : t.site.again.Sound := hsound.site.of_streams fun _ => Site.stream_again
    have hready : t.site.again.Ready consumerName t.site.again :=
      ⟨hsoundt, ⟨(hcounted hboundary).bounded, (hcounted hboundary).left, (hcounted hboundary).rows,
        (hcounted hboundary).fresh⟩, Site.since_of_stream rfl, fun _ hd => hd, rfl, hidle.1,
        hmessages.1⟩
    have hfair : around.Fair t.site.again := ⟨hidle.2, hmessages.2.1, hmessages.2.2⟩
    have hpost := triple_iterate_ready hfair t.site.again hready
    generalize (Scheduler.ofConsumer consumerName).iterate around t.site.again = r at hpost hstep
    subst hstep
    obtain ⟨_ | _, s⟩ := r
    · -- the process died
      have hdown : ¬ (Process.ran (.ofConsumer consumerName) (none, s)).atBoundary := fun h => by
        cases h.1
      obtain rfl := eq_of_not_atBoundary hdown hrest
      exact ⟨hpost, by simp [Process.ran], fun h => absurd h hdown⟩
    · have hs : s.Bounded ∧ s.Counted := by
        rcases hpost with ⟨entry, hdone⟩ | hnone
        · exact ⟨hdone.counted.bounded, hdone.counted⟩
        · exact ⟨hnone.1.counted.bounded, hnone.1.counted⟩
      have hofu : ∀ sched ∈ (Process.ran (.ofConsumer consumerName) (some (), s)).scheduler,
          sched = .ofConsumer consumerName := by
        rintro sched ⟨⟩
        rfl
      obtain ⟨hbounded', hofp, hiterated⟩ := ih hsoundu hofu hs.1 (fun _ => hs.2) hnext hrest
      refine ⟨hbounded', hofp, fun hp => ?_⟩
      obtain ⟨entries, hentries⟩ := hiterated hp
      rcases hpost with ⟨entry, hdone⟩ | ⟨hready', hstop | hnone⟩
      · exact ⟨entry :: entries, (hentries.cons hsoundt hdone).of_again⟩
      · have hstopped : ¬ (Process.ran (.ofConsumer consumerName) (some (), s)).atBoundary :=
          fun h => absurd (hstop.symm.trans h.2) nofun
        obtain rfl := eq_of_not_atBoundary hstopped hrest
        exact absurd hp hstopped
      · exact ⟨entries, (hentries.idle hready' hnone).of_again⟩

/-- A row that outlives the bound is processed, and gone. -/
theorem Site.Iterated.served {entries : List ℕ} {ticks : ℕ} (hs₀ : s₀.Sound)
    (h : s₀.Iterated consumerName entries ticks s) {d : Delivery}
    (hd : d ∈ (s₀.stream .songsPrep).pending) (howner : d.consumer = consumerName)
    (hticks : entries.length < ticks) :
    s₀.times d.id < s.times d.id ∧ ∀ d' ∈ (s.stream .songsPrep).pending, d'.id ≠ d.id := by
  have hgone : d ∉ (s.stream .songsPrep).pending := fun hthere =>
    Nat.ne_of_lt hticks (h.busy d hd howner hthere)
  constructor
  · have hprocessed : d.id ∈ entries := by
      by_contra hnot
      exact hgone (h.kept d hd hnot)
    have hpos : 0 < (entries.map fun e => (StreamName.songsPrep, e)).count (.songsPrep, d.id) :=
      List.count_pos_iff.mpr (List.mem_map_of_mem hprocessed)
    rw [times, times, h.processed, List.count_append]
    exact Nat.lt_add_of_pos_right hpos
  · intro d' hd' hid
    have hold : d' ∈ (s₀.stream .songsPrep).pending := by
      refine (h.since.pending d' hd').resolve_right fun hlt => ?_
      have hle := (hs₀.ordered .songsPrep).pending_le d hd
      exact absurd hlt (Nat.not_lt_of_le (hid ▸ hle))
    obtain rfl := (hs₀.sorted .songsPrep).eq_of_id hold hd hid
    exact hgone hd'

/-- **When a bad entry is bounded and starves nobody.**  After any history, in every run of
a process with `analyses:run` idle whose turns of the loop all find the messages of this
consumer's rows, and whose handler finishes an entry it is handed for the last time: from
every turn of the loop to every later one.  What was delivered more often than the limit
before the run is recorded failed and acknowledged by its start-up, if no message is removed
meanwhile and the batch holds every row. -/
theorem prep_boundedAndFair (history : List QueueAction) (p₀ : Process)
    (hhistory : exec queueStep {} history = some p₀) (consumerName : ℕ) (around : Surroundings)
    (before after : List Surroundings) (t p : Process)
    (hbefore : exec queueStep p₀ (.start consumerName around :: before.map .iterate) = some t)
    (hafter : exec queueStep t (after.map .iterate) = some p)
    (hidle : Meets queueStep Process.AnalysesIdle p₀
      (.start consumerName around :: before.map .iterate ++ after.map .iterate))
    (hcurable : Meets queueStep (Process.PrepCurable consumerName) p₀
      (.start consumerName around :: before.map .iterate ++ after.map .iterate)) :
    Process.BoundedAndFair consumerName after.length t p ∧
      ∀ t₁, queueStep p₀ (.start consumerName around) = some t₁ → t₁.scheduler.isSome →
        around.KeepsMessages → p₀.site.songsPrep.pending.length ≤ reclaimBatchSize →
        p₀.GivesUp t₁ := by
  have hsound₀ : p₀.Sound :=
    invariant_all Process.Sound (fun _ _ _ h hstep => h.step hstep) Process.Sound.empty hhistory
  obtain ⟨hmeetsb, hmeetsa⟩ := meets_append (meets_inter hidle hcurable) hbefore
  obtain ⟨t₁, hstart, hloop⟩ := exec_cons.mp hbefore
  have hsound₁ := hsound₀.step hstart
  have hmeets₁ := (hmeetsb t₁ hstart).2
  obtain ⟨hbounded₁, hsched₁, hcounted₁⟩ := started_counted hsound₀ hstart
  obtain ⟨hboundedt, hschedt, hcountedt⟩ :=
    iterated_run hsound₁ hsched₁ hbounded₁ hcounted₁ hmeets₁ hloop
  have hsoundt : t.Sound :=
    invariant_all Process.Sound (fun _ _ _ h hstep => h.step hstep) hsound₁ hloop
  obtain ⟨hboundedp, -, hcountedp⟩ := iterated_run hsoundt hschedt hboundedt
    (fun hboundary => (hcountedt hboundary).elim fun _ h => h.counted) hmeetsa hafter
  refine ⟨⟨hboundedp, fun hboundary entry htimes => ?_, fun hboundary d hd howner hticks => ?_⟩,
    fun _ hstart hup hkeeps hfew => started_givesUp hsound₀ hstart hup hkeeps hfew⟩
  · obtain ⟨entries, hentries⟩ := hcountedp hboundary
    refine ⟨fun d hd hid => ?_, fun x hx hid => ?_⟩
    · exact absurd (hid ▸ htimes) (Nat.ne_of_lt (hentries.counted.rows d hd nofun))
    · exact absurd (hid ▸ htimes) (Nat.ne_of_lt (hentries.counted.left x hx nofun))
  · obtain ⟨entries, hentries⟩ := hcountedp hboundary
    exact hentries.served hsoundt.site hd howner (hentries.length_le.trans_lt hticks)

/-! ## A bad entry and a good one -/

instance (s : Site) : Decidable s.Idle := inferInstanceAs (Decidable (_ = []))

/-- Two songs wait to be prepared, and no process runs. -/
def twoWaiting : Process :=
  (exec queueStep {} [.outside [.publish .songsPrep (some 0), .publish .songsPrep (some 1)]]).get
    (by decide +kernel)

/-- The handler raises on the entry. -/
def raisingOn (entry : ℕ) : Surroundings where
  handle _ handed := if handed = entry then .raised else .finished

/-- The process dies, and is started again when its rows have idled long enough. -/
def restarted : List QueueAction :=
  [.kill, .outside [.sleep songsPrepPendingClaimMinIdle], .start 0 (raisingOn 1)]

/-- The first entry was read, and claimed three times; two more are published. -/
def claimedThrice : Process :=
  (exec queueStep {} ([.outside [.publish .songsPrep (some 0), .publish .songsPrep (some 1)],
    .start 0 {}, .iterate (raisingOn 1)] ++ (List.replicate 3 restarted).flatten ++
    [.kill, .outside [.sleep songsPrepPendingClaimMinIdle,
      .publish .songsPrep (some 2), .publish .songsPrep (some 3)]])).get (by decide +kernel)

/-- It is started once more. -/
def upAgain : Process := ((queueStep claimedThrice (.start 0 {})).get (by decide +kernel))

/-- One turn of the loop, in which the handler raises on the first of the two. -/
def raisedOnce : Process :=
  (exec queueStep claimedThrice (.start 0 {} :: [raisingOn 3].map .iterate)).get (by decide +kernel)

/-- It raises once more, and then finishes whatever it is handed. -/
def raisingOnceMore : List Surroundings := [raisingOn 3, {}, {}, {}, {}, {}, {}]

def bothPrepared : Process :=
  (exec queueStep raisedOnce (raisingOnceMore.map .iterate)).get (by decide +kernel)

/-- What can be checked of `AnalysesIdle` and `PrepCurable` in a state. -/
def Process.curableHere (p : Process) : QueueAction → Bool
  | .iterate around => p.site.Messages 0 ∧ p.site.Idle ∧ ∀ x ∈ p.site.processed,
      maxClaimAttempts ≤ p.site.times x.2 + 1 → around.handle .songsPrep x.2 = .finished
  | _ => true

/-- Nobody else does anything during the step. -/
def QueueAction.Alone (a : QueueAction) : Prop :=
  ∀ around, a = .iterate around → ∀ clock, around.events clock = []

theorem alone_of_quiet {around : Surroundings} {loop : List Surroundings}
    (h : ∀ around ∈ loop, around.events = fun _ => []) :
    ∀ a ∈ QueueAction.start consumerName around :: loop.map .iterate, a.Alone := by
  intro a ha around heq clock
  subst heq
  rcases List.mem_cons.mp ha with hstart | hloop
  · cases hstart
  · obtain ⟨around', hmem, heq⟩ := List.mem_map.mp hloop
    cases heq
    rw [h around hmem]

theorem prepCurable_of_here {p : Process} {a : QueueAction} (h : p.curableHere a = true)
    (ha : a.Alone) : p.PrepCurable 0 a := by
  cases a <;> try trivial
  case iterate around =>
    obtain ⟨hmessages, -, hlast⟩ := of_decide_eq_true h
    refine ⟨hmessages, fun clock e he => ?_, fun entry htimes => ?_⟩
    · rw [ha around rfl clock] at he
      cases he
    · have hpos : 0 < p.site.processed.count (.songsPrep, entry) :=
        Nat.lt_of_lt_of_le (by decide) (Nat.le_of_succ_le_succ htimes)
      exact hlast _ (List.count_pos_iff.mp hpos) htimes

theorem analysesIdle_of_idle {p : Process} {a : QueueAction} (h : p.site.Idle) (ha : a.Alone) :
    p.AnalysesIdle a := by
  cases a <;> try trivial
  case iterate around =>
    refine ⟨h, fun clock e he => ?_⟩
    rw [ha around rfl clock] at he
    cases he

theorem prep_boundedAndFair_bothPrepared :
    Process.BoundedAndFair 0 raisingOnceMore.length raisedOnce bothPrepared ∧
      upAgain.site.GivenUp 1 := by
  have hquiet : ∀ around ∈ raisingOn 3 :: raisingOnceMore, around.events = fun _ => [] := by
    simp [raisingOnceMore, raisingOn]
  have hidle : Meets queueStep (fun p _ => p.site.Idle) claimedThrice
      (.start 0 {} :: (raisingOn 3 :: raisingOnceMore).map .iterate) := by decide +kernel
  have hcurable : Meets queueStep (fun p a => p.curableHere a = true) claimedThrice
      (.start 0 {} :: (raisingOn 3 :: raisingOnceMore).map .iterate) := by decide +kernel
  obtain ⟨hfair, hgivesUp⟩ := prep_boundedAndFair _ claimedThrice (Option.some_get _).symm 0 {}
    [raisingOn 3] raisingOnceMore raisedOnce bothPrepared (Option.some_get _).symm
    (Option.some_get _).symm
    (meets_mono (fun p a h => analysesIdle_of_idle h.1 h.2)
      (meets_and hidle (alone_of_quiet hquiet)))
    (meets_mono (fun p a h => prepCurable_of_here h.1 h.2)
      (meets_and hcurable (alone_of_quiet hquiet)))
  have hup := hgivesUp upAgain (Option.some_get _).symm (by decide +kernel)
    (fun _ _ he => absurd he List.not_mem_nil) (by decide +kernel)
  exact ⟨hfair, hup ⟨1, 0, 3 * songsPrepPendingClaimMinIdle, 4⟩ (by decide +kernel) (by decide)
    (by decide +kernel) 0 (by decide +kernel)⟩

/-- The handler raises on the first entry every time, and the loop hands it out again and
again: four times in four turns, while the second entry waits. -/
theorem not_forall_boundedAndFair :
    ¬ ∀ (history : List QueueAction) (p₀ : Process), exec queueStep {} history = some p₀ →
      ∀ (consumerName : ℕ) (around : Surroundings) (before after : List Surroundings) (t p : Process),
        exec queueStep p₀ (.start consumerName around :: before.map .iterate) = some t →
        exec queueStep t (after.map .iterate) = some p →
        Meets queueStep Process.AnalysesIdle p₀
          (.start consumerName around :: before.map .iterate ++ after.map .iterate) →
        Process.BoundedAndFair consumerName after.length t p := by
  intro h
  have hrun : (exec queueStep twoWaiting [.start 0 {}]).bind (fun t =>
      (exec queueStep t ((List.replicate 4 (raisingOn 1)).map .iterate)).map fun p =>
        decide (maxClaimAttempts < p.site.times 1)) = some true := by
    decide +kernel
  obtain ⟨t, ht, hrun⟩ := Option.bind_eq_some_iff.mp hrun
  obtain ⟨p, hp, htrue⟩ := Option.map_eq_some_iff.mp hrun
  have hquiet : ∀ around ∈ List.replicate 4 (raisingOn 1), around.events = fun _ => [] := by
    simp [raisingOn]
  have hmeets : Meets queueStep (fun p _ => p.site.Idle) twoWaiting
      (.start 0 {} :: (List.replicate 4 (raisingOn 1)).map .iterate) := by decide +kernel
  have hfair := h _ twoWaiting (Option.some_get _).symm 0 {} [] (List.replicate 4 (raisingOn 1))
    t p ht hp (meets_mono (fun p a h => analysesIdle_of_idle h.1 h.2)
      (meets_and hmeets (alone_of_quiet hquiet)))
  exact absurd (hfair.bounded 1) (Nat.not_le_of_lt (of_decide_eq_true htrue))

end VocalCoach
