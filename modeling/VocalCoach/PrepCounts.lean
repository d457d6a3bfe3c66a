/-
# How often an entry of `songs:prep` is processed

The give-up limit counts deliveries, and only a start-up delivers an entry again; the loop
processes a pending entry without any count.  So within one run of the loop it is the
handler alone that bounds how often an entry is processed.

`Site.Counted` says that no entry has used up its attempts while its message is there;
a start-up establishes it, and an iteration keeps it as long as the handler finishes an
entry by its last attempt (`triple_processEntry_counted`).
-/
import VocalCoach.Sites

namespace VocalCoach

open RedisStream Program

variable {around : Surroundings} {s s₀ t : Site} {c : Consumer} {entry : ℕ}

/-! ## Counting -/

/-- How often the process has processed the entry of `songs:prep`. -/
def Site.times (s : Site) (entry : ℕ) : ℕ := s.processed.count (.songsPrep, entry)

theorem times_of_processed (h : t.processed = s.processed) (entry : ℕ) :
    t.times entry = s.times entry := by
  rw [Site.times, Site.times, h]

theorem times_append (h : t.processed = s.processed ++ [(.songsPrep, entry)]) (e : ℕ) :
    t.times e = s.times e + if e = entry then 1 else 0 := by
  rw [Site.times, Site.times, h, List.count_append]
  by_cases he : e = entry
  · simp [he]
  · have hne : (StreamName.songsPrep, entry) ≠ (.songsPrep, e) :=
      fun heq => he (Prod.mk.inj heq).2.symm
    rw [List.count_cons_of_ne hne, List.count_nil, if_neg he]

theorem times_log (s : Site) (entry e : ℕ) :
    (s.log .songsPrep entry).times e = s.times e + if e = entry then 1 else 0 :=
  times_append rfl e

/-- No entry is processed more often than the give-up limit. -/
def Site.Bounded (s : Site) : Prop := ∀ entry, s.times entry ≤ maxClaimAttempts

/-- An entry whose message is there or that is pending, other than the one being processed,
has an attempt left; one that is yet to be published has all of them. -/
structure Site.CountedBut (being : Option ℕ) (s : Site) : Prop where
  bounded : s.Bounded
  left : ∀ x ∈ (s.stream .songsPrep).entries, some x.id ≠ being → s.times x.id < maxClaimAttempts
  rows : ∀ d ∈ (s.stream .songsPrep).pending, some d.id ≠ being → s.times d.id < maxClaimAttempts
  fresh : ∀ entry, (s.stream .songsPrep).lastId < entry → s.times entry = 0

/-- **Every entry that is there has an attempt left.** -/
abbrev Site.Counted : Site → Prop := Site.CountedBut none

theorem Site.CountedBut.meanwhile {being : Option ℕ} (h : s.CountedBut being)
    (hst : Site.Meanwhile s t) : t.CountedBut being := by
  have htimes : ∀ e, t.times e = s.times e := times_of_processed hst.processed
  refine ⟨fun e => (htimes e).trans_le (h.bounded e), fun x hx hne => ?_, fun d hd hne => ?_,
    fun e he => ?_⟩
  · rw [htimes]
    rcases hst.entries .songsPrep x hx with hx | hnew
    · exact h.left x hx hne
    · rw [h.fresh x.id hnew]
      exact Nat.zero_lt_of_lt (by decide : 2 < maxClaimAttempts)
  · rw [hst.pending] at hd
    rw [htimes]
    exact h.rows d hd hne
  · rw [htimes]
    exact h.fresh e ((hst.lastId_le .songsPrep).trans_lt he)

/-- A command that adds no message, and no row but for a message, leaves the counts. -/
theorem Site.CountedBut.update {being : Option ℕ} (h : s.CountedBut being)
    {f : Stream (Option JobId) → Stream (Option JobId)}
    (hentries : (f (s.stream .songsPrep)).entries ⊆ (s.stream .songsPrep).entries)
    (hpending : ∀ d ∈ (f (s.stream .songsPrep)).pending, d ∈ (s.stream .songsPrep).pending ∨
      ∃ x ∈ (s.stream .songsPrep).entries, x.id = d.id)
    (hlast : (f (s.stream .songsPrep)).lastId = (s.stream .songsPrep).lastId) :
    (s.update .songsPrep f).CountedBut being := by
  have htimes : ∀ e, (s.update .songsPrep f).times e = s.times e :=
    times_of_processed (processed_update f)
  refine ⟨fun e => (htimes e).trans_le (h.bounded e), fun x hx hne => ?_, fun d hd hne => ?_,
    fun e he => ?_⟩
  · rw [stream_update_self] at hx
    rw [htimes]
    exact h.left x (hentries hx) hne
  · rw [stream_update_self] at hd
    rw [htimes]
    rcases hpending d hd with hd | ⟨x, hx, hid⟩
    · exact h.rows d hd hne
    · exact hid ▸ h.left x hx (hid ▸ hne)
  · rw [stream_update_self, hlast] at he
    rw [htimes]
    exact h.fresh e he

/-! ## The start-up -/

/-- The entries of `songs:prep` that are yet to be reclaimed have not been processed, and
the others once at most. -/
structure Site.Reclaiming (pending : List ℕ) (s : Site) : Prop where
  once : ∀ e, s.times e ≤ 1
  waiting : ∀ e ∈ pending, s.times e = 0 ∧ e ≤ (s.stream .songsPrep).lastId
  fresh : ∀ e, (s.stream .songsPrep).lastId < e → s.times e = 0

theorem Site.Reclaiming.meanwhile {pending : List ℕ} (h : s.Reclaiming pending)
    (hst : Site.Meanwhile s t) : t.Reclaiming pending := by
  have htimes : ∀ e, t.times e = s.times e := times_of_processed hst.processed
  have hle := hst.lastId_le .songsPrep
  refine ⟨fun e => (htimes e).trans_le (h.once e), fun e he => ?_, fun e he => ?_⟩
  · rw [htimes]
    exact ⟨(h.waiting e he).1, (h.waiting e he).2.trans hle⟩
  · rw [htimes]
    exact h.fresh e (hle.trans_lt he)

theorem Site.Reclaiming.update {pending : List ℕ} (h : s.Reclaiming pending)
    {f : Stream (Option JobId) → Stream (Option JobId)}
    (hlast : (f (s.stream .songsPrep)).lastId = (s.stream .songsPrep).lastId) :
    (s.update .songsPrep f).Reclaiming pending := by
  have htimes : ∀ e, (s.update .songsPrep f).times e = s.times e :=
    times_of_processed (processed_update f)
  refine ⟨fun e => (htimes e).trans_le (h.once e), fun e he => ?_, fun e he => ?_⟩
  · rw [htimes, stream_update_self, hlast]
    exact h.waiting e he
  · rw [stream_update_self, hlast] at he
    rw [htimes]
    exact h.fresh e he

theorem Site.Reclaiming.recorded {pending : List ℕ} {name : StreamName}
    (h : s.Reclaiming pending) : (s.recorded name entry).Reclaiming pending := by
  refine ⟨h.once, fun e he => ?_, fun e he => ?_⟩
  · rw [Site.stream_recorded]
    exact h.waiting e he
  · rw [Site.stream_recorded] at he
    exact h.fresh e he

/-- The first of the list is processed. -/
theorem Site.Reclaiming.log {pending : List ℕ} (h : s.Reclaiming (entry :: pending))
    (hnew : entry ∉ pending) : (s.log .songsPrep entry).Reclaiming pending := by
  have htimes := times_log s entry
  obtain ⟨hzero, hle⟩ := h.waiting entry List.mem_cons_self
  refine ⟨fun e => ?_, fun e he => ?_, fun e he => ?_⟩
  · rw [htimes]
    by_cases heq : e = entry
    · rw [heq, hzero, if_pos rfl]
    · rw [if_neg heq]
      exact h.once e
  · have hne : e ≠ entry := fun heq => hnew (heq ▸ he)
    rw [htimes, if_neg hne, stream_log]
    exact h.waiting e (List.mem_cons_of_mem entry he)
  · rw [stream_log] at he
    have hne : e ≠ entry := fun heq => absurd (heq ▸ he) (Nat.not_lt_of_le hle)
    rw [htimes, if_neg hne]
    exact h.fresh e he

/-- A start-up that processes nothing twice leaves every entry attempts. -/
theorem Site.Reclaiming.counted {pending : List ℕ} (h : s.Reclaiming pending) : s.Counted :=
  ⟨fun e => (h.once e).trans (by decide), fun x _ _ => (h.once x.id).trans_lt (by decide),
    fun d _ _ => (h.once d.id).trans_lt (by decide), h.fresh⟩

theorem Site.Reclaiming.tail {pending : List ℕ} (h : s.Reclaiming (entry :: pending)) :
    s.Reclaiming pending :=
  ⟨h.once, fun e he => h.waiting e (List.mem_cons_of_mem entry he), h.fresh⟩

theorem stable_reclaiming {pending : List ℕ} : Stable around (Site.Reclaiming pending) :=
  stable_of_meanwhile fun _ _ h hst => h.meanwhile hst

theorem triple_reclaimOne_counted (hc : c.streamName = .songsPrep) (d : Delivery)
    {pending : List ℕ} (hnew : d.id ∉ pending) :
    Triple (Site.Reclaiming (d.id :: pending)) (c.reclaimOne around d)
      (fun _ => Site.Reclaiming pending) Site.Bounded := by
  have hbounded : ∀ {l : List ℕ}, ∀ s, Site.Reclaiming l s → s.Bounded :=
    fun s h => h.counted.bounded
  refine triple_ite (fun _ => ?_) fun _ => ?_
  · refine Consumer.triple_giveUp stable_reclaiming stable_reclaiming (A := Site.Reclaiming pending)
      (fun s hs => hs.recorded) (fun s hs => ?_) (fun s hs => ?_) hbounded hbounded
    · rw [hc]
      exact hs.tail.update rfl
    · rw [hc]
      exact hs.update rfl
  · refine Triple.bind (R := fun _ => Site.Reclaiming pending)
      (Q := fun _ => Site.Reclaiming (d.id :: pending)) ?_ fun claimed => ?_
    · refine triple_operate stable_reclaiming (fun s hs => ?_) hbounded
      rw [hc]
      exact hs.update (Stream.xclaim_entries _ _ _ _ _).2.1
    · cases claimed with
      | none => exact triple_pure fun _ hs => hs.tail
      | some fields =>
        refine Consumer.triple_processEntry (A := Site.Reclaiming pending) stable_reclaiming
          stable_reclaiming stable_reclaiming (fun s hs => ?_) (fun s hs => ?_) (fun s hs => ?_)
          (fun _ _ _ hs => hs) hbounded hbounded hbounded
        · rw [hc]
          exact hs.log hnew
        · rw [hc]
          exact hs.update rfl
        · rw [hc]
          exact hs.update rfl

/-- The process has processed no entry of `songs:prep` yet. -/
structure Site.Unprocessed (s : Site) : Prop where
  sound : s.Sound
  none : ∀ e, s.times e = 0

/-- The entries of the other stream are not counted. -/
theorem respects_unprocessed (hc : c.streamName = .analysesRun) :
    c.Respects around Site.Unprocessed := by
  refine .of_update (fun s hs => hs.sound) (stable_of_meanwhile fun s t hs hst => ?_)
    (fun s entry hs => ?_) (fun s entry hs => ?_) fun s f hs hf => ?_
  · exact ⟨hs.sound.meanwhile hst, fun e => (times_of_processed hst.processed e).trans (hs.none e)⟩
  · refine ⟨(Site.Sound.respects around c).log s entry hs.sound, fun e => ?_⟩
    have hne : (c.streamName, entry) ≠ (.songsPrep, e) := by
      rw [hc]
      exact fun heq => by cases heq
    rw [Site.times, Site.log, List.count_append, List.count_cons_of_ne hne, List.count_nil]
    exact hs.none e
  · exact ⟨(Site.Sound.respects around c).recorded s entry hs.sound, hs.none⟩
  · exact ⟨hf, fun e => (times_of_processed (Site.processed_update f) e).trans (hs.none e)⟩

theorem triple_reclaimEach_counted (hc : c.streamName = .songsPrep) {pending : List Delivery}
    (hnodup : (pending.map Delivery.id).Nodup) :
    Triple (Site.Reclaiming (pending.map Delivery.id)) (c.reclaimEach around pending)
      (fun _ => Site.Counted) Site.Bounded := by
  induction pending with
  | nil => exact triple_pure fun s hs => hs.counted
  | cons d pending ih =>
    rw [List.map_cons, List.nodup_cons] at hnodup
    exact (triple_reclaimOne_counted hc d hnodup.1).bind fun _ => ih hnodup.2

/-- The list of a reclaim: each id once, and none that is not published yet. -/
theorem reclaiming_xpending (hs : s.Unprocessed) (minIdle count : ℕ) :
    (((s.stream .songsPrep).xpending none minIdle s.now count).map Delivery.id).Nodup ∧
      s.Reclaiming (((s.stream .songsPrep).xpending none minIdle s.now count).map Delivery.id) := by
  have hsub := (List.take_sublist count _).trans (List.filter_sublist (p := fun d =>
    decide (minIdle ≤ d.idle s.now ∧ ((none : Option ℕ) = none ∨ none = some d.consumer)))
    (l := (s.stream .songsPrep).pending))
  have hordered := hs.sound.ordered .songsPrep
  constructor
  · have hsorted := (hs.sound.sorted .songsPrep).sublist hsub
    exact List.pairwise_map.mpr (hsorted.imp fun hlt => Nat.ne_of_lt hlt)
  · refine ⟨fun e => (hs.none e).le.trans (Nat.zero_le 1), fun e he => ⟨hs.none e, ?_⟩,
      fun e _ => hs.none e⟩
    obtain ⟨d, hd, rfl⟩ := List.mem_map.mp he
    exact (hordered.pending_le d (hsub.subset hd)).trans hordered.delivered_le

/-- **A start-up leaves every entry attempts.** -/
theorem triple_startUp_counted (consumerName : ℕ) :
    Triple Site.Unprocessed ((Scheduler.ofConsumer consumerName).startUp around)
      (fun _ => Site.Counted) Site.Bounded := by
  have hbounded : ∀ s : Site, s.Unprocessed → s.Bounded :=
    fun s hs e => (hs.none e).le.trans (Nat.zero_le _)
  have hanalyses : (Consumer.analyses consumerName).Respects around Site.Unprocessed :=
    respects_unprocessed rfl
  refine Triple.bind (hanalyses.reclaimStuckJobs.weaken (fun _ h => h) (fun _ _ h => h) hbounded)
    fun _ => ?_
  have hstable : Stable around Site.Unprocessed := hanalyses.stable
  refine Triple.bind (Q := fun l s => (l.map Delivery.id).Nodup ∧ s.Reclaiming (l.map Delivery.id))
    (triple_operate hstable (fun s hs => reclaiming_xpending hs _ _) hbounded)
    fun pending => triple_of_imp fun hnodup => ?_
  exact triple_reclaimEach_counted rfl hnodup

/-! ## Processing an entry in the loop -/

/-- What a stretch of the loop does to `songs:prep`, beyond taking entries away. -/
structure Site.Since (s₀ s : Site) : Prop where
  entries : ∀ x ∈ (s.stream .songsPrep).entries,
    x ∈ (s₀.stream .songsPrep).entries ∨ (s₀.stream .songsPrep).lastId < x.id
  pending : ∀ d ∈ (s.stream .songsPrep).pending,
    d ∈ (s₀.stream .songsPrep).pending ∨ (s₀.stream .songsPrep).lastDelivered < d.id
  lastId_le : (s₀.stream .songsPrep).lastId ≤ (s.stream .songsPrep).lastId
  lastDelivered_le : (s₀.stream .songsPrep).lastDelivered ≤ (s.stream .songsPrep).lastDelivered

theorem Site.Since.trans (h : s₀.Since s) (h' : s.Since t) : s₀.Since t := by
  refine ⟨fun x hx => ?_, fun d hd => ?_, h.lastId_le.trans h'.lastId_le,
    h.lastDelivered_le.trans h'.lastDelivered_le⟩
  · rcases h'.entries x hx with hx | hnew
    · exact h.entries x hx
    · exact Or.inr (h.lastId_le.trans_lt hnew)
  · rcases h'.pending d hd with hd | hnew
    · exact h.pending d hd
    · exact Or.inr (h.lastDelivered_le.trans_lt hnew)

theorem Site.since_of_stream (hst : t.stream .songsPrep = s.stream .songsPrep) : s.Since t := by
  refine ⟨?_, ?_, ?_, ?_⟩ <;> rw [hst]
  · exact fun _ hx => Or.inl hx
  · exact fun _ hd => Or.inl hd

theorem Site.since_of_meanwhile (hst : Site.Meanwhile s t) : s.Since t := by
  refine ⟨hst.entries .songsPrep, fun d hd => ?_, hst.lastId_le _, (hst.lastDelivered _).ge⟩
  rw [hst.pending] at hd
  exact Or.inl hd

/-- A command on `songs:prep` that adds no message, and rows past the cursor only. -/
theorem Site.since_update {f : Stream (Option JobId) → Stream (Option JobId)}
    (hentries : (f (s.stream .songsPrep)).entries ⊆ (s.stream .songsPrep).entries)
    (hpending : ∀ d ∈ (f (s.stream .songsPrep)).pending, d ∈ (s.stream .songsPrep).pending ∨
      (s.stream .songsPrep).lastDelivered < d.id)
    (hlast : (f (s.stream .songsPrep)).lastId = (s.stream .songsPrep).lastId)
    (hdelivered : (s.stream .songsPrep).lastDelivered ≤ (f (s.stream .songsPrep)).lastDelivered) :
    s.Since (s.update .songsPrep f) := by
  refine ⟨?_, ?_, ?_, ?_⟩ <;> rw [stream_update_self]
  · exact fun x hx => Or.inl (hentries hx)
  · exact hpending
  · exact hlast.ge
  · exact hdelivered

/-- An entry is about to be processed: nothing has been since, and its message is there. -/
structure Site.Before (entry : ℕ) (s₀ s : Site) : Prop where
  sound : s.Sound
  counted : s.Counted
  since : s₀.Since s
  kept : (s₀.stream .songsPrep).pending ⊆ (s.stream .songsPrep).pending
  processed : s.processed = s₀.processed
  message : ∃ fields, ⟨entry, fields⟩ ∈ (s.stream .songsPrep).entries

/-- One entry has been processed since, one there was or was published since. -/
structure Site.Processed (being : Option ℕ) (entry : ℕ) (s₀ s : Site) : Prop where
  sound : s.Sound
  counted : s.CountedBut being
  since : s₀.Since s
  kept : ∀ d ∈ (s₀.stream .songsPrep).pending, d.id ≠ entry → d ∈ (s.stream .songsPrep).pending
  processed : s.processed = s₀.processed ++ [(.songsPrep, entry)]
  origin : (∃ x ∈ (s₀.stream .songsPrep).entries, x.id = entry) ∨
    (s₀.stream .songsPrep).lastId < entry
  le : entry ≤ (s.stream .songsPrep).lastId

variable {being : Option ℕ}

theorem Site.Processed.meanwhile (h : Site.Processed being entry s₀ s)
    (hst : Site.Meanwhile s t) : Site.Processed being entry s₀ t := by
  refine ⟨h.sound.meanwhile hst, h.counted.meanwhile hst,
    h.since.trans (Site.since_of_meanwhile hst), fun d hd hne => ?_,
    hst.processed.trans h.processed, h.origin, h.le.trans (hst.lastId_le _)⟩
  rw [hst.pending]
  exact h.kept d hd hne

theorem stable_processed : Stable around (Site.Processed being entry s₀) :=
  stable_of_meanwhile fun _ _ h hst => h.meanwhile hst

/-- Acknowledging the entry keeps the other rows. -/
theorem Site.Processed.xack (h : Site.Processed being entry s₀ s) :
    Site.Processed being entry s₀ (s.update .songsPrep (Stream.xack entry)) := by
  have hrows : ((s.stream .songsPrep).xack entry).pending ⊆ (s.stream .songsPrep).pending :=
    fun d hd => List.mem_of_mem_filter hd
  refine ⟨h.sound.update (fun hs => hs.xack entry) fun hs => hs.xack entry,
    h.counted.update (fun _ hx => hx) (fun d hd => Or.inl (hrows hd)) rfl,
    h.since.trans (Site.since_update (fun _ hx => hx) (fun d hd => Or.inl (hrows hd)) rfl
      (Nat.le_refl _)),
    fun d hd hne => ?_, (processed_update _).trans h.processed, h.origin, ?_⟩
  · rw [stream_update_self]
    exact List.mem_filter.mpr ⟨h.kept d hd hne, decide_eq_true hne⟩
  · rw [stream_update_self]
    exact h.le

/-- **Once it is acknowledged and removed, the entry is gone**: it takes part no more. -/
theorem Site.Processed.xdel (h : Site.Processed (some entry) entry s₀ s)
    (hgone : ∀ d ∈ (s.stream .songsPrep).pending, d.id ≠ entry) :
    Site.Processed none entry s₀ (s.update .songsPrep (Stream.xdel entry)) := by
  have hmessages : ((s.stream .songsPrep).xdel entry).entries ⊆ (s.stream .songsPrep).entries :=
    fun x hx => List.mem_of_mem_filter hx
  have hcounted := h.counted.update (f := Stream.xdel entry) hmessages (fun d hd => Or.inl hd) rfl
  refine ⟨h.sound.update (fun hs => hs.xdel entry) id,
    ⟨hcounted.bounded, fun x hx _ => ?_, fun d hd _ => ?_, hcounted.fresh⟩,
    h.since.trans (Site.since_update hmessages (fun d hd => Or.inl hd) rfl (Nat.le_refl _)),
    fun d hd hne => ?_, (processed_update _).trans h.processed, h.origin, ?_⟩
  · have hne : x.id ≠ entry := by
      rw [stream_update_self] at hx
      exact of_decide_eq_true (List.mem_filter.mp hx).2
    exact hcounted.left x hx fun heq => hne (Option.some.inj heq)
  · have hne : d.id ≠ entry := by
      rw [stream_update_self] at hd
      exact hgone d hd
    exact hcounted.rows d hd fun heq => hne (Option.some.inj heq)
  · rw [stream_update_self]
    exact h.kept d hd hne
  · rw [stream_update_self]
    exact h.le

/-- An entry the handler does not finish has another attempt. -/
theorem Site.Processed.left (h : Site.Processed (some entry) entry s₀ s)
    (hmore : s₀.times entry + 1 < maxClaimAttempts) : Site.Processed none entry s₀ s := by
  have htimes : s.times entry < maxClaimAttempts := by
    rw [times_append h.processed, if_pos rfl]
    exact hmore
  refine { h with counted := ⟨h.counted.bounded, fun x hx _ => ?_, fun d hd _ => ?_, h.counted.fresh⟩ }
  · by_cases heq : x.id = entry
    · exact heq ▸ htimes
    · exact h.counted.left x hx fun hsome => heq (Option.some.inj hsome)
  · by_cases heq : d.id = entry
    · exact heq ▸ htimes
    · exact h.counted.rows d hd fun hsome => heq (Option.some.inj hsome)

/-- Its call is logged. -/
theorem Site.Before.log (h : Site.Before entry s₀ s) :
    Site.Processed (some entry) entry s₀ (s.log .songsPrep entry) := by
  obtain ⟨fields, hmessage⟩ := h.message
  have hle : entry ≤ (s.stream .songsPrep).lastId :=
    (h.sound.ordered .songsPrep).entries_le _ hmessage
  have htimes := times_log s entry
  have hother : ∀ e, e ≠ entry → (s.log .songsPrep entry).times e = s.times e := by
    intro e hne
    rw [htimes, if_neg hne]
    rfl
  refine ⟨h.sound.of_streams fun _ => stream_log, ⟨fun e => ?_, fun x hx hne => ?_,
    fun d hd hne => ?_, fun e he => ?_⟩, ?_, fun d hd _ => ?_, ?_, h.since.entries _ hmessage |>.imp_left
      fun hthere => ⟨_, hthere, rfl⟩, ?_⟩
  · by_cases heq : e = entry
    · rw [htimes, if_pos heq, heq]
      exact h.counted.left _ hmessage nofun
    · rw [hother e heq]
      exact h.counted.bounded e
  · rw [stream_log] at hx
    rw [hother x.id fun heq => hne (congrArg some heq)]
    exact h.counted.left x hx nofun
  · rw [stream_log] at hd
    rw [hother d.id fun heq => hne (congrArg some heq)]
    exact h.counted.rows d hd nofun
  · rw [stream_log] at he
    rw [hother e (Nat.ne_of_gt (hle.trans_lt he))]
    exact h.counted.fresh e he
  · exact h.since.trans (since_of_stream stream_log)
  · rw [stream_log]
    exact h.kept hd
  · rw [← h.processed]
    rfl
  · rw [stream_log]
    exact hle

theorem Site.Before.meanwhile (h : Site.Before entry s₀ s) (hst : Site.Meanwhile s t)
    (hmessage : ∃ fields, ⟨entry, fields⟩ ∈ (t.stream .songsPrep).entries) :
    Site.Before entry s₀ t := by
  refine ⟨h.sound.meanwhile hst, h.counted.meanwhile hst,
    h.since.trans (since_of_meanwhile hst), fun d hd => ?_, hst.processed.trans h.processed, hmessage⟩
  rw [hst.pending]
  exact h.kept hd

/-- **Processing an entry** uses up one attempt, and the last one only to finish it. -/
theorem triple_processEntry_counted (hc : c.streamName = .songsPrep) {fields : Option JobId}
    (hbefore : Stable around (Site.Before entry s₀))
    (hfinished : maxClaimAttempts ≤ s₀.times entry + 1 →
      around.handle .songsPrep entry = .finished) :
    Triple (Site.Before entry s₀) (c.processEntry around entry fields)
      (fun _ => Site.Processed none entry s₀) Site.Bounded := by
  have hacked : Stable around fun s => Site.Processed (some entry) entry s₀ s ∧
      ∀ d ∈ (s.stream .songsPrep).pending, d.id ≠ entry := by
    refine stable_of_meanwhile fun s t hs hst => ⟨hs.1.meanwhile hst, fun d hd => ?_⟩
    rw [hst.pending] at hd
    exact hs.2 d hd
  have hlogged : Stable around (Site.Processed (some entry) entry s₀) := stable_processed
  refine Consumer.triple_processEntry hbefore hlogged hacked (fun s hs => ?_) (fun s hs => ?_)
    (fun s hs => ?_) (fun _ hnot s hs => ?_) (fun s hs => hs.counted.bounded)
    (fun s hs => hs.counted.bounded) fun s hs => hs.1.counted.bounded
  · rw [hc]
    exact hs.log
  · rw [hc]
    refine ⟨hs.xack, fun d hd => ?_⟩
    rw [Site.stream_update_self] at hd
    exact of_decide_eq_true (List.mem_filter.mp hd).2
  · rw [hc]
    exact hs.1.xdel hs.2
  · refine hs.left (Nat.lt_of_not_le fun hle => hnot ?_)
    rw [hc]
    exact hfinished hle

end VocalCoach
