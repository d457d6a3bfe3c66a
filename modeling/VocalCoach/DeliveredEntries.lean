/-
# Delivered entries of `analyses:run`

The loop reads new entries of `analyses:run` only; what is delivered and not acknowledged
is looked at by the reclaim of a start-up, once, and if it has idled long enough by then.
So at the top of the loop a pending entry is never examined again by this process
(`noneForgotten_iff`).

`delivered_noneForgotten` is the condition under which there is none: the start-up finds
all of them idle, and the handler finishes whatever it is handed.
-/
import VocalCoach.Sites

namespace VocalCoach

open RedisStream Program Machine

variable {around : Surroundings} {s t : Site} {name : StreamName} {c : Consumer}

/-! ## The pending rows of a stream -/

/-- All pending rows of a stream are of a kind, which may depend on the time. -/
def Site.Rows (name : StreamName) (S : Delivery → ℕ → Prop) (s : Site) : Prop :=
  ∀ d ∈ (s.stream name).pending, S d s.now

/-- Nothing is pending. -/
abbrev Site.NoRows (name : StreamName) : Site → Prop := Site.Rows name fun _ _ => False

/-- Time does not end it. -/
def Lasts (S : Delivery → ℕ → Prop) : Prop := ∀ d t t', t ≤ t' → S d t → S d t'

variable {S : Delivery → ℕ → Prop}

theorem stable_rows (hS : Lasts S) : Stable around (Site.Rows name S) := by
  refine stable_of_meanwhile fun s t hs hst d hd => ?_
  rw [hst.pending] at hd
  exact hS d s.now t.now hst.now_le (hs d hd)

theorem lasts_or (hS : Lasts S) (p : Delivery → Prop) : Lasts fun d t => p d ∨ S d t :=
  fun d _ _ hle h => h.imp_right (hS d _ _ hle)

theorem lasts_and_idle (p : Delivery → Prop) (minIdle : ℕ) :
    Lasts fun d t => p d ∧ minIdle ≤ d.idle t :=
  fun _ _ _ hle h => ⟨h.1, h.2.trans (Nat.sub_le_sub_right hle _)⟩

theorem lasts_false : Lasts fun _ _ => False := fun _ _ _ _ h => h

theorem rows_update {f : Stream (Option JobId) → Stream (Option JobId)} {T : Delivery → ℕ → Prop}
    (h : ∀ d ∈ (f (s.stream name)).pending, T d s.now) : Site.Rows name T (s.update name f) := by
  intro d hd
  rw [Site.stream_update_self] at hd
  rw [Site.now_update]
  exact h d hd

/-- Acknowledging an entry leaves the other rows. -/
theorem rows_xack {entry : ℕ} (h : Site.Rows name (fun d t => d.id = entry ∨ S d t) s) :
    Site.Rows name S (s.update name (Stream.xack entry)) := by
  refine rows_update fun d hd => ?_
  obtain ⟨hd, hne⟩ := List.mem_filter.mp hd
  exact (h d hd).resolve_left (of_decide_eq_true hne)

/-- The consumer of the other stream touches no row. -/
theorem respects_rows (hc : c.streamName ≠ name) (hS : Lasts S) :
    c.Respects around (Site.Rows name S) := by
  have hupdate : ∀ (s : Site) (f : Stream (Option JobId) → Stream (Option JobId)),
      Site.Rows name S s → Site.Rows name S (s.update c.streamName f) := by
    intro s f h d hd
    rw [Site.stream_update_of_ne f hc.symm] at hd
    rw [Site.now_update]
    exact h d hd
  refine ⟨stable_rows hS, fun s entry h d hd => ?_, fun s entry h d hd => ?_,
    fun s _ => hupdate s _, fun s _ => hupdate s _, fun s _ _ => hupdate s _,
    fun s _ _ _ => hupdate s _⟩
  · rw [Site.stream_log] at hd
    exact h d hd
  · rw [Site.stream_recorded] at hd
    exact h d hd

/-- **An entry the handler finishes** is no longer pending. -/
theorem triple_processEntry_finished {entry : ℕ} {fields : Option JobId} (hS : Lasts S)
    (hfinished : around.handle c.streamName entry = .finished) :
    Triple (Site.Rows c.streamName fun d t => d.id = entry ∨ S d t)
      (c.processEntry around entry fields) (fun _ => Site.Rows c.streamName S) (fun _ => True) := by
  have hor := lasts_or hS fun d => d.id = entry
  refine Consumer.triple_processEntry (stable_rows hor) (stable_rows hor) (stable_rows hS)
    (fun s hs d hd => ?_) (fun s hs => rows_xack hs) (fun s hs => rows_update hs)
    (fun _ hnot => absurd hfinished hnot) (fun _ _ => trivial) (fun _ _ => trivial)
    fun _ _ => trivial
  rw [Site.stream_log] at hd
  exact hs d hd

/-! ## The reclaim of a start-up -/

/-- The rows that are left to reclaim: listed and idle. -/
def Site.Left (c : Consumer) (pending : List Delivery) : Site → Prop :=
  Site.Rows c.streamName fun d t =>
    d.id ∈ pending.map Delivery.id ∧ c.reclaimMinIdleSeconds ≤ d.idle t

/-- What is left once the row of `d` is claimed, by the message `XCLAIM` returned. -/
def Site.Claimed (c : Consumer) (d : Delivery) (pending : List Delivery) :
    Option (Option JobId) → Site → Prop
  | none => Site.Left c pending
  | some _ => Site.Rows c.streamName fun r t =>
      r.id = d.id ∨ r.id ∈ pending.map Delivery.id ∧ c.reclaimMinIdleSeconds ≤ r.idle t

/-- **`XCLAIM`** drops the row of a missing message. -/
theorem left_claim {d : Delivery} {pending : List Delivery} (h : s.Left c (d :: pending)) :
    Site.Claimed c d pending
      ((s.stream c.streamName).xclaimed c.reclaimMinIdleSeconds s.now d.id)
      (s.update c.streamName
        (Stream.xclaim c.consumerName c.reclaimMinIdleSeconds s.now d.id)) := by
  have hother : ∀ r ∈ (s.stream c.streamName).pending, r.id ≠ d.id →
      r.id ∈ pending.map Delivery.id ∧ c.reclaimMinIdleSeconds ≤ r.idle s.now := by
    intro r hr hne
    obtain ⟨hmem, hidle⟩ := h r hr
    rw [List.map_cons, List.mem_cons] at hmem
    exact ⟨hmem.resolve_left hne, hidle⟩
  unfold Stream.xclaimed
  cases hclaim : (s.stream c.streamName).claimable c.reclaimMinIdleSeconds s.now d.id with
  | none =>
    -- every row is idle, so there is none of this id
    simp only [Option.isNone_none, if_true, Site.Claimed, Site.Left]
    refine rows_update fun r hr => hother r ?_ ?_
    · simpa only [Stream.xclaim, hclaim, Option.isNone_none, if_true] using hr
    · simp only [Stream.xclaim, hclaim, Option.isNone_none, if_true] at hr
      intro hid
      have hnot := List.find?_eq_none.mp hclaim r hr
      exact hnot (decide_eq_true ⟨hid, (h r hr).2⟩)
  | some found =>
    simp only [Option.isNone_some, Bool.false_eq_true, if_false]
    cases hrange : (s.stream c.streamName).xrange d.id with
    | none =>
      simp only [Site.Claimed, Site.Left]
      refine rows_update fun r hr => ?_
      simp only [Stream.xclaim, hclaim, hrange, Option.isNone_some, Option.isNone_none,
        Bool.false_eq_true, if_false, if_true] at hr
      obtain ⟨hr, hne⟩ := List.mem_filter.mp hr
      exact hother r hr (of_decide_eq_true hne)
    | some fields =>
      simp only [Site.Claimed]
      refine rows_update fun r hr => ?_
      simp only [Stream.xclaim, hclaim, hrange, Option.isNone_some, Bool.false_eq_true,
        if_false] at hr
      obtain ⟨r₀, hr₀, rfl⟩ := List.mem_map.mp hr
      by_cases hid : r₀.id = d.id
      · exact Or.inl (by rw [if_pos hid])
      · rw [if_neg hid]
        exact Or.inr (hother r₀ hr₀ hid)

theorem triple_reclaimOne (hfinished : ∀ entry, around.handle c.streamName entry = .finished)
    (d : Delivery) (pending : List Delivery) :
    Triple (Site.Left c (d :: pending)) (c.reclaimOne around d) (fun _ => Site.Left c pending)
      (fun _ => True) := by
  have hlasts : ∀ l : List Delivery, Stable around (Site.Left c l) :=
    fun l => stable_rows (lasts_and_idle _ _)
  refine triple_ite (fun _ => ?_) fun _ => ?_
  · -- given up on: the entry is acknowledged all the same
    refine Consumer.triple_giveUp (hlasts _) (hlasts pending) (fun s hs r hr => ?_)
      (fun s hs => ?_) (fun s hs => rows_update hs) (fun _ _ => trivial) fun _ _ => trivial
    · rw [Site.stream_recorded] at hr
      exact hs r hr
    · refine rows_xack fun r hr => ?_
      obtain ⟨hmem, hidle⟩ := hs r hr
      rw [List.map_cons, List.mem_cons] at hmem
      exact hmem.imp_right fun hmem => ⟨hmem, hidle⟩
  · refine Triple.bind (triple_operate (hlasts _) (fun s hs => left_claim hs) fun _ _ => trivial)
      fun claimed => ?_
    cases claimed with
    | none => exact triple_pure fun _ h => h
    | some fields => exact triple_processEntry_finished (lasts_and_idle _ _) (hfinished d.id)

/-- **A reclaim that sees every row leaves none**, if the handler finishes what it is
handed. -/
theorem triple_reclaimStuckJobs (hfinished : ∀ entry, around.handle c.streamName entry = .finished) :
    Triple
      (fun s => Site.Rows c.streamName (fun d t => c.reclaimMinIdleSeconds ≤ d.idle t) s ∧
        (s.stream c.streamName).pending.length ≤ reclaimBatchSize)
      (c.reclaimStuckJobs around) (fun _ => Site.NoRows c.streamName) (fun _ => True) := by
  have heach : ∀ pending, Triple (Site.Left c pending) (c.reclaimEach around pending)
      (fun _ => Site.NoRows c.streamName) (fun _ => True) := by
    intro pending
    induction pending with
    | nil => exact triple_pure fun s hs d hd => absurd (hs d hd).1 List.not_mem_nil
    | cons d pending ih => exact (triple_reclaimOne hfinished d pending).bind fun _ => ih
  refine Triple.bind (triple_operate ?_ (fun s hs => ?_) fun _ _ => trivial) heach
  · refine stable_of_meanwhile fun s t hs hst => ⟨fun d hd => ?_, ?_⟩
    · rw [hst.pending] at hd
      exact (hs.1 d hd).trans (Nat.sub_le_sub_right hst.now_le _)
    · rw [hst.pending]
      exact hs.2
  · -- nothing is filtered out, nothing cut off
    intro d hd
    refine ⟨List.mem_map_of_mem ?_, hs.1 d hd⟩
    have hlisted : (s.stream c.streamName).xpending none c.reclaimMinIdleSeconds s.now
        reclaimBatchSize = (s.stream c.streamName).pending := Stream.xpending_all hs.1 hs.2
    show d ∈ Stream.xpending _ _ _ _ _
    rw [hlisted]
    exact hd

/-! ## A start-up and an iteration -/

/-- **A start-up leaves nothing pending** of what it sees. -/
theorem triple_startUp (consumerName : ℕ)
    (hfinished : ∀ entry, around.handle .analysesRun entry = .finished) :
    Triple
      (fun s => Site.Rows .analysesRun (fun d t => pendingClaimMinIdle ≤ d.idle t) s ∧
        s.analysesRun.pending.length ≤ reclaimBatchSize)
      ((Scheduler.ofConsumer consumerName).startUp around)
      (fun _ => Site.NoRows .analysesRun) (fun _ => True) := by
  have hprep : (Consumer.songsPrep consumerName).Respects around (Site.NoRows .analysesRun) :=
    respects_rows nofun lasts_false
  refine Triple.bind
    (triple_reclaimStuckJobs (c := .analyses consumerName) hfinished) fun _ => ?_
  exact hprep.reclaimStuckJobs.weaken (fun _ h => h) (fun _ _ h => h) fun _ _ => trivial

/-- Nothing is pending, unless the process is about to stop. -/
def Site.Served (s : Site) : Prop := s.stopping = true ∨ s.NoRows .analysesRun

/-- `read_next` leaves what it delivers pending. -/
theorem triple_readNext :
    Triple (Site.NoRows c.streamName) (c.readNext around)
      (fun l s => (l = [] ∧ s.NoRows c.streamName) ∨
        ∃ x, l = [x] ∧ Site.Rows c.streamName (fun d _ => d.id = x.id ∨ False) s)
      (fun _ => True) := by
  refine triple_operate (stable_rows lasts_false) (fun s hs => ?_) fun _ _ => trivial
  have hnone : ∀ d, d ∉ (s.stream c.streamName).pending := fun d hd => hs d hd
  unfold Stream.newEntries
  cases hnew : (s.stream c.streamName).undelivered with
  | nil =>
    refine Or.inl ⟨List.take_nil, rows_update fun d hd => hnone d ?_⟩
    simpa [Stream.xreadgroup, Stream.newEntries, hnew] using hd
  | cons x rest =>
    refine Or.inr ⟨x, rfl, rows_update fun d hd => Or.inl ?_⟩
    rcases List.mem_append.mp hd with hd | hd
    · exact absurd hd (hnone d)
    · simp only [Stream.newEntries, hnew, List.take_succ_cons, List.take_zero, List.map_cons,
        List.map_nil, List.mem_singleton] at hd
      rw [hd]

theorem triple_processFirst (hc : c.streamName = .analysesRun)
    (hfinished : ∀ entry, around.handle .analysesRun entry = .finished)
    (x : Entry (Option JobId)) :
    Triple (Site.Rows c.streamName fun d _ => d.id = x.id ∨ False)
      (Scheduler.processFirst around c [x]) (fun _ => Site.Served) (fun _ => True) := by
  refine Triple.bind triple_read_eq fun stopping => triple_ite (fun hstop => ?_) fun _ => ?_
  · exact triple_pure fun s hs => Or.inl (hs.1.trans hstop)
  · have hdone : Triple (Site.Rows c.streamName fun d _ => d.id = x.id ∨ False)
        (c.processEntry around x.id x.fields) (fun _ => Site.NoRows c.streamName) fun _ => True :=
      triple_processEntry_finished lasts_false (hc ▸ hfinished x.id)
    refine Triple.bind (hdone.weaken (fun s hs => hs.2) (fun _ _ h => h) fun _ h => h) fun _ => ?_
    exact triple_pure fun s hs => Or.inr (hc ▸ hs)

/-- **An iteration leaves nothing pending**, if the handler finishes what it is handed. -/
theorem triple_iterate (consumerName : ℕ)
    (hfinished : ∀ entry, around.handle .analysesRun entry = .finished) :
    Triple (Site.NoRows .analysesRun) ((Scheduler.ofConsumer consumerName).iterate around)
      (fun _ => Site.Served) (fun _ => True) := by
  have hprep : (Scheduler.ofConsumer consumerName).songsPrep.Respects around
      (Site.NoRows .analysesRun) := respects_rows nofun lasts_false
  have hreadNext : Triple (Site.NoRows .analysesRun)
      ((Consumer.analyses consumerName).readNext around)
      (fun l s => (l = [] ∧ s.NoRows .analysesRun) ∨
        ∃ x, l = [x] ∧ Site.Rows .analysesRun (fun d _ => d.id = x.id ∨ False) s)
      (fun _ => True) := triple_readNext (c := .analyses consumerName)
  have hfirst : ∀ x : Entry (Option JobId),
      Triple (Site.Rows .analysesRun fun d _ => d.id = x.id ∨ False)
        (Scheduler.processFirst around (.analyses consumerName) [x]) (fun _ => Site.Served)
        (fun _ => True) := triple_processFirst (c := .analyses consumerName) rfl hfinished
  have htick : Triple (Site.NoRows .analysesRun) ((Scheduler.ofConsumer consumerName).tick around)
      (fun found s => if found then s.Served else s.NoRows .analysesRun) (fun _ => True) := by
    refine Triple.bind (keeps_read _ |>.weaken (fun _ h => h) (fun _ _ h => h) fun _ _ => trivial)
      fun stopping => triple_ite (fun _ => triple_pure fun _ h => h) fun _ => ?_
    refine Triple.bind hreadNext fun entries => ?_
    rintro s (⟨rfl, hs⟩ | ⟨x, rfl, hs⟩)
    · exact (Scheduler.keeps_tickPrep hprep).weaken (fun _ h => h)
        (fun found s h => by cases found <;> first | exact h | exact Or.inr h)
        (fun _ _ => trivial) s hs
    · exact ((hfirst x).bind fun _ => triple_pure fun _ h => h) s hs
  refine Triple.bind htick fun found => ?_
  cases found with
  | true => exact triple_pure fun _ h => h
  | false =>
    refine Triple.bind hreadNext fun entries => ?_
    rintro s (⟨rfl, hs⟩ | ⟨x, rfl, hs⟩)
    · exact (Or.inr hs : s.Served)
    · refine (Triple.bind triple_read_eq fun stopping => triple_ite (fun hstop => ?_) fun _ => ?_)
        s hs
      · exact triple_pure fun s hs => Or.inl (hs.1.trans hstop)
      · exact (hfirst x).weaken (fun _ h => h.2) (fun _ _ h => h) fun _ h => h

/-! ## What the loop never looks at -/

/-- The row is pending, and its entry has been processed so often. -/
structure Site.Untouched (d : Delivery) (times : ℕ) (s : Site) : Prop where
  sound : s.Sound
  pending : d ∈ (s.stream .analysesRun).pending
  count : s.processed.count (.analysesRun, d.id) = times

variable {d : Delivery} {times : ℕ}

theorem stable_untouched : Stable around (Site.Untouched d times) := by
  refine stable_of_meanwhile fun s t hs hst => ⟨hs.sound.meanwhile hst, ?_, ?_⟩
  · rw [hst.pending]
    exact hs.pending
  · rw [hst.processed]
    exact hs.count

theorem count_log {entry : ℕ} (h : (c.streamName, entry) ≠ (name, d.id)) :
    (s.log c.streamName entry).processed.count (name, d.id) = s.processed.count (name, d.id) := by
  rw [Site.log, List.count_append, List.count_cons_of_ne h, List.count_nil, Nat.add_zero]

/-- `songs:prep` is not concerned. -/
theorem respects_untouched (hc : c.streamName = .songsPrep) :
    c.Respects around (Site.Untouched d times) := by
  have hne : StreamName.analysesRun ≠ c.streamName := by rw [hc]; exact nofun
  refine .of_update (fun s hs => hs.sound) stable_untouched (fun s entry hs => ?_)
    (fun s entry hs => ?_) fun s f hs hf => ?_
  · refine ⟨(Site.Sound.respects around c).log s entry hs.sound, ?_, ?_⟩
    · rw [Site.stream_log]
      exact hs.pending
    · exact (count_log fun heq => by rw [hc] at heq; cases heq).trans hs.count
  · refine ⟨(Site.Sound.respects around c).recorded s entry hs.sound, ?_, hs.count⟩
    rw [Site.stream_recorded]
    exact hs.pending
  · refine ⟨hf, ?_, ?_⟩
    · rw [Site.stream_update_of_ne f hne]
      exact hs.pending
    · rw [Site.processed_update]
      exact hs.count

/-- **`read_next` delivers none of the pending entries.** -/
theorem untouched_readNext (hc : c.streamName = .analysesRun) :
    Triple (Site.Untouched d times) (c.readNext around)
      (fun l s => (∀ x ∈ l, x.id ≠ d.id) ∧ s.Untouched d times) (Site.Untouched d times) := by
  refine triple_operate stable_untouched (fun s hs => ⟨fun x hx => ?_, ?_⟩) fun _ h => h
  · rw [hc] at hx
    have hordered := hs.sound.ordered .analysesRun
    have hnew := (Stream.mem_of_newEntries hx).2
    exact Nat.ne_of_gt ((hordered.pending_le d hs.pending).trans_lt hnew)
  · have hsound := (Site.Sound.respects around c).xreadgroup s c.consumerName 1 hs.sound
    rw [hc] at hsound ⊢
    refine ⟨hsound, ?_, ?_⟩
    · rw [Site.stream_update_self]
      exact List.mem_append_left _ hs.pending
    · rw [Site.processed_update]
      exact hs.count

/-- Processing another entry leaves the row. -/
theorem untouched_processEntry (hc : c.streamName = .analysesRun) {x : Entry (Option JobId)}
    (hx : x.id ≠ d.id) : Keeps (Site.Untouched d times) (c.processEntry around x.id x.fields) := by
  have hsound := Site.Sound.respects around c
  refine Consumer.triple_processEntry stable_untouched stable_untouched stable_untouched
    (fun s hs => ⟨hsound.log s x.id hs.sound, ?_, ?_⟩) (fun s hs => ⟨hsound.xack s x.id hs.sound, ?_, ?_⟩)
    (fun s hs => ⟨hsound.xdel s x.id hs.sound, ?_, ?_⟩) (fun _ _ _ hs => hs) (fun _ h => h)
    (fun _ h => h) fun _ h => h
  · rw [Site.stream_log]
    exact hs.pending
  · exact (count_log fun heq => hx (Prod.mk.inj heq).2).trans hs.count
  · rw [hc, Site.stream_update_self]
    exact List.mem_filter.mpr ⟨hs.pending, decide_eq_true hx.symm⟩
  · rw [Site.processed_update]
    exact hs.count
  · rw [hc, Site.stream_update_self]
    exact hs.pending
  · rw [Site.processed_update]
    exact hs.count

theorem untouched_iterate (consumerName : ℕ) :
    Keeps (Site.Untouched d times) ((Scheduler.ofConsumer consumerName).iterate around) :=
  Scheduler.keeps_iterate (untouched_readNext rfl) (fun _ hx => untouched_processEntry rfl hx)
    (respects_untouched rfl)

/-! ## Examined again -/

/-- The steps of a process that goes on. -/
def QueueAction.ofLoop : QueueAction → Bool
  | .iterate _ | .outside _ => true
  | _ => false

/-- Some way the same loop may go on hands the entry to the handler again, or acts on its
pending row. -/
def Process.ExaminesAgain (p : Process) (d : Delivery) : Prop :=
  ∃ (actions : List QueueAction) (p' : Process), (∀ a ∈ actions, a.ofLoop) ∧
    exec queueStep p actions = some p' ∧
      (p.site.processed.count (.analysesRun, d.id) < p'.site.processed.count (.analysesRun, d.id) ∨
        d ∉ p'.site.analysesRun.pending)

/-- Every delivered and unacknowledged entry of `analyses:run` is examined again. -/
def Process.NoneForgotten (p : Process) : Prop :=
  ∀ d ∈ p.site.analysesRun.pending, p.ExaminesAgain d

/-- However the loop goes on, a pending row stays as it is. -/
theorem untouched_step {p p' : Process} {a : QueueAction} (hp : p.Sound) (ha : a.ofLoop)
    (hstep : queueStep p a = some p') (h : p.site.Untouched d times) :
    p'.site.Untouched d times := by
  cases a <;> simp only [QueueAction.ofLoop, Bool.false_eq_true] at ha
  case iterate around =>
    obtain ⟨sched, hsched, hstep⟩ := Option.bind_eq_some_iff.mp hstep
    rw [Option.ite_none_left_eq_some] at hstep
    obtain ⟨-, hstep⟩ := hstep
    cases hstep
    obtain ⟨consumerName, rfl⟩ := hp.scheduler sched hsched
    have hagain : p.site.again.Untouched d times :=
      ⟨h.sound.of_streams fun _ => Site.stream_again, by rw [Site.stream_again]; exact h.pending,
        h.count⟩
    have hkeeps : Keeps (Site.Untouched d times) ((Scheduler.ofConsumer consumerName).iterate around) :=
      untouched_iterate consumerName
    have hfinal := hkeeps.final hagain
    generalize (Scheduler.ofConsumer consumerName).iterate around p.site.again = r at hfinal
    obtain ⟨_ | _, t⟩ := r <;> exact hfinal
  case outside events =>
    cases hstep
    have hmeanwhile := Site.happen_meanwhile p.site events
    refine ⟨h.sound.meanwhile hmeanwhile, ?_, ?_⟩
    · rw [hmeanwhile.pending]
      exact h.pending
    · rw [hmeanwhile.processed]
      exact h.count

/-- **The loop examines none of the pending entries.** -/
theorem not_examinesAgain {p : Process} (hp : p.Sound) (hd : d ∈ p.site.analysesRun.pending) :
    ¬ p.ExaminesAgain d := by
  rintro ⟨actions, p', hloop, hrun, hexamined⟩
  have hmeets : Meets queueStep (fun _ a => True ∧ a.ofLoop = true) p actions :=
    meets_and (meets_of_forall fun _ _ => trivial) hloop
  have hstart : p.Sound ∧ p.site.Untouched d (p.site.processed.count (.analysesRun, d.id)) :=
    ⟨hp, hp.site, hd, rfl⟩
  have hend : p'.Sound ∧ p'.site.Untouched d (p.site.processed.count (.analysesRun, d.id)) :=
    invariant
      (fun p₁ => p₁.Sound ∧
        p₁.site.Untouched d (p.site.processed.count (.analysesRun, d.id)))
      (fun p₁ a p₂ h hcond hstep => ⟨h.1.step hstep, untouched_step h.1 hcond.2 hstep h.2⟩)
      hstart hmeets hrun
  rcases hexamined with hlt | hgone
  · exact absurd hlt (hend.2.count ▸ Nat.lt_irrefl _)
  · exact hgone hend.2.pending

/-- **Nothing is forgotten if and only if nothing is pending.** -/
theorem noneForgotten_iff {p : Process} (hp : p.Sound) :
    p.NoneForgotten ↔ p.site.analysesRun.pending = [] := by
  constructor
  · intro h
    rw [List.eq_nil_iff_forall_not_mem]
    exact fun d hd => not_examinesAgain hp hd (h d hd)
  · intro h d hd
    rw [h] at hd
    cases hd

/-! ## The life of a process -/

/-- The handler finishes what it is handed of `analyses:run`. -/
def QueueAction.Finishes : QueueAction → Prop
  | .start _ around | .iterate around => ∀ entry, around.handle .analysesRun entry = .finished
  | _ => True

/-- The start-up sees every pending row of `analyses:run`: all have idled long enough, and
they fit into one batch. -/
def Process.SeesAll (p : Process) : Prop :=
  (∀ d ∈ p.site.analysesRun.pending, pendingClaimMinIdle ≤ d.idle p.site.now) ∧
    p.site.analysesRun.pending.length ≤ reclaimBatchSize

instance (p : Process) : Decidable p.SeesAll := inferInstanceAs (Decidable (_ ∧ _))

/-- A process is down, about to stop, or has nothing pending. -/
structure Process.Serves (p : Process) : Prop where
  sound : p.Sound
  served : p.atBoundary → p.site.analysesRun.pending = []

theorem Process.serves_ran {sched : Scheduler} {r : Option Unit × Site}
    (hsound : (Process.ran sched r).Sound) (h : ∀ s, r = (some (), s) → s.Served) :
    (Process.ran sched r).Serves := by
  refine ⟨hsound, fun hboundary => ?_⟩
  obtain ⟨_ | _, s⟩ := r
  · cases hboundary.1
  · rcases h s rfl with hstop | hnone
    · exact absurd (hstop.symm.trans hboundary.2) nofun
    · exact List.eq_nil_iff_forall_not_mem.mpr fun d hd => hnone d hd

theorem Process.serves_start {p p' : Process} {consumerName : ℕ} (hp : p.Sound) (hsees : p.SeesAll)
    (hfinishes : (QueueAction.start consumerName around).Finishes)
    (hstep : queueStep p (.start consumerName around) = some p') : p'.Serves := by
  have hsound := hp.step hstep
  rw [queueStep, Option.ite_none_right_eq_some] at hstep
  obtain ⟨-, hstep⟩ := hstep
  cases hstep
  have hstarting : Site.Rows .analysesRun (fun d t => pendingClaimMinIdle ≤ d.idle t)
      p.site.starting ∧ p.site.starting.analysesRun.pending.length ≤ reclaimBatchSize := hsees
  exact serves_ran hsound fun s hs =>
    Or.inr ((triple_startUp consumerName hfinishes).of_returns hstarting hs)

theorem Process.Serves.step {p p' : Process} {a : QueueAction} (h : p.Serves) (hloop : a.ofLoop)
    (hfinishes : a.Finishes) (hstep : queueStep p a = some p') : p'.Serves := by
  have hsound := h.sound.step hstep
  cases a <;> simp only [QueueAction.ofLoop, Bool.false_eq_true] at hloop
  case iterate around =>
    obtain ⟨sched, hsched, hstep⟩ := Option.bind_eq_some_iff.mp hstep
    rw [Option.ite_none_left_eq_some, Bool.not_eq_true] at hstep
    obtain ⟨hstopping, hstep⟩ := hstep
    cases hstep
    obtain ⟨consumerName, rfl⟩ := h.sound.scheduler sched hsched
    have hnone : p.site.again.NoRows .analysesRun := by
      have hempty := h.served ⟨by rw [hsched]; rfl, hstopping⟩
      intro d hd
      rw [Site.stream_again, Site.stream, hempty] at hd
      cases hd
    exact serves_ran hsound fun s hs => (triple_iterate consumerName hfinishes).of_returns hnone hs
  case outside events =>
    cases hstep
    have hmeanwhile := Site.happen_meanwhile p.site events
    refine ⟨hsound, fun hboundary => (hmeanwhile.pending .analysesRun).trans ?_⟩
    refine h.served ⟨hboundary.1, ?_⟩
    by_contra hstop
    rw [Bool.not_eq_false] at hstop
    exact absurd ((hmeanwhile.stopping hstop).symm.trans hboundary.2) nofun

/-- **When no delivered entry is forgotten.**  After any history of the two streams and of
earlier processes, at every turn of the loop of a process whose start-up sees every
pending row and whose handler finishes what it is handed, every delivered and
unacknowledged entry of `analyses:run` is examined again: there is none. -/
theorem delivered_noneForgotten (history : List QueueAction) (p₀ : Process)
    (hhistory : exec queueStep {} history = some p₀) (consumerName : ℕ) (around : Surroundings)
    (loop : List QueueAction) (p : Process)
    (hrun : exec queueStep p₀ (.start consumerName around :: loop) = some p)
    (hloop : ∀ a ∈ loop, a.ofLoop) (hsees : p₀.SeesAll)
    (hfinishes : ∀ a ∈ QueueAction.start consumerName around :: loop, a.Finishes)
    (hboundary : p.atBoundary) : p.NoneForgotten ∧ p.site.analysesRun.pending = [] := by
  have hsound : p₀.Sound :=
    invariant_all Process.Sound (fun _ _ _ h hstep => h.step hstep) Process.Sound.empty hhistory
  obtain ⟨p₁, hstart, hrest⟩ := exec_cons.mp hrun
  have hserves := Process.serves_start hsound hsees (hfinishes _ List.mem_cons_self) hstart
  have hmeets : Meets queueStep (fun _ a => (True ∧ a.ofLoop = true) ∧ a.Finishes) p₁ loop :=
    meets_and (meets_and (meets_of_forall fun _ _ => trivial) hloop)
      fun a ha => hfinishes a (List.mem_cons_of_mem _ ha)
  have hend : p.Serves :=
    invariant Process.Serves (fun _ _ _ h hcond hstep => h.step hcond.1.2 hcond.2 hstep) hserves
      hmeets hrest
  have hempty : p.site.analysesRun.pending = [] := hend.served hboundary
  exact ⟨(noneForgotten_iff hend.sound).mpr hempty, hempty⟩

/-! ## Two lives -/

/-- An analysis is published, and the handler raises on it. -/
def raisesOnFirst : List QueueAction :=
  [.outside [.publish .analysesRun (some 0)], .start 0 {},
   .iterate { handle := fun _ _ => .raised }, .kill]

/-- The process is down, and the entry has been pending for long enough. -/
def downLongEnough : Process :=
  (exec queueStep {} (raisesOnFirst ++ [.outside [.sleep pendingClaimMinIdle]])).get
    (by decide +kernel)

/-- Its successor, after one turn of the loop. -/
def reclaimedAndLooping : Process :=
  (exec queueStep downLongEnough [.start 1 {}, .iterate {}]).get (by decide +kernel)

theorem delivered_noneForgotten_reclaimed :
    reclaimedAndLooping.NoneForgotten ∧ reclaimedAndLooping.site.analysesRun.pending = [] := by
  refine delivered_noneForgotten _ downLongEnough (Option.some_get _).symm 1 {} [.iterate {}]
    reclaimedAndLooping (Option.some_get _).symm (by simp [QueueAction.ofLoop]) (by decide +kernel)
    ?_ (by decide +kernel)
  intro a ha
  rcases List.mem_cons.mp ha with rfl | ha
  · exact fun _ => rfl
  · rw [List.mem_singleton.mp ha]
    exact fun _ => rfl

/-- The entry the handler raised on stays pending, and the loop that goes on never looks at
it again; nor does one that is restarted at once. -/
theorem not_forall_noneForgotten :
    ¬ ∀ (actions : List QueueAction) (p : Process), exec queueStep {} actions = some p →
      p.atBoundary → p.NoneForgotten := by
  intro h
  have hrun : (exec queueStep {} (raisesOnFirst ++ [.start 1 {}, .iterate {}])).map (fun p =>
      decide (p.atBoundary ∧ p.site.analysesRun.pending ≠ [])) = some true := by
    decide +kernel
  obtain ⟨p, hp, htrue⟩ := Option.map_eq_some_iff.mp hrun
  obtain ⟨hboundary, hpending⟩ := of_decide_eq_true htrue
  have hsound : p.Sound :=
    invariant_all Process.Sound (fun _ _ _ h hstep => h.step hstep) Process.Sound.empty hp
  exact hpending ((noneForgotten_iff hsound).mp (h _ p hp hboundary))

end VocalCoach
