/-
# What the operations of the worker process do

The facts about a `Site` everything about the loop rests on: what happens outside touches
no pending list (`Site.Meanwhile`), an operation is a step from what it finds
(`triple_operate`), and `process_entry` logs its call and then acknowledges and removes
the entry, or leaves it as it is (`triple_processEntry`).

`Site.Sound` is kept by every start-up and every iteration, wherever it dies.
-/
import VocalCoach.Scheduler

namespace VocalCoach

open RedisStream Program

variable {around : Surroundings} {s t : Site} {name other : StreamName}

/-! ## Updates -/

namespace Site

variable (f : Stream (Option JobId) → Stream (Option JobId))

@[simp] theorem stream_update_self : (s.update name f).stream name = f (s.stream name) := by
  cases name <;> rfl

theorem stream_update_of_ne (h : other ≠ name) :
    (s.update name f).stream other = s.stream other := by
  cases name <;> cases other <;> first | rfl | exact absurd rfl h

@[simp] theorem now_update : (s.update name f).now = s.now := by cases name <;> rfl

@[simp] theorem stopping_update : (s.update name f).stopping = s.stopping := by cases name <;> rfl

@[simp] theorem processed_update : (s.update name f).processed = s.processed := by
  cases name <;> rfl

/-- `process_entry` is called. -/
def log (name : StreamName) (entry : ℕ) (s : Site) : Site :=
  { s with processed := s.processed ++ [(name, entry)] }

@[simp] theorem stream_log {entry : ℕ} : (s.log name entry).stream other = s.stream other := by
  cases other <;> rfl

/-- `mark_permanently_failed` is called. -/
def recorded (name : StreamName) (entry : ℕ) (s : Site) : Site :=
  { s with failed := s.failed ++ [(name, entry)] }

@[simp] theorem stream_recorded {entry : ℕ} :
    (s.recorded name entry).stream other = s.stream other := by
  cases other <;> rfl

@[simp] theorem failed_update : (s.update name f).failed = s.failed := by cases name <;> rfl

@[simp] theorem stream_starting : s.starting.stream name = s.stream name := by cases name <;> rfl

@[simp] theorem stream_again : s.again.stream name = s.stream name := by cases name <;> rfl

/-! ## What happens outside -/

/-- What others can do to a site: publish and remove messages, let time pass, and ask the
process to stop. -/
structure Meanwhile (s t : Site) : Prop where
  pending : ∀ name, (t.stream name).pending = (s.stream name).pending
  lastDelivered : ∀ name, (t.stream name).lastDelivered = (s.stream name).lastDelivered
  lastId_le : ∀ name, (s.stream name).lastId ≤ (t.stream name).lastId
  ordered : ∀ name, (s.stream name).Ordered → (t.stream name).Ordered
  entries : ∀ name, ∀ x ∈ (t.stream name).entries,
    x ∈ (s.stream name).entries ∨ (s.stream name).lastId < x.id
  now_le : s.now ≤ t.now
  processed : t.processed = s.processed
  failed : t.failed = s.failed
  stopping : s.stopping → t.stopping

theorem Meanwhile.refl (s : Site) : Meanwhile s s where
  pending _ := rfl
  lastDelivered _ := rfl
  lastId_le _ := Nat.le_refl _
  ordered _ h := h
  entries _ _ hx := Or.inl hx
  now_le := Nat.le_refl _
  processed := rfl
  failed := rfl
  stopping h := h

theorem Meanwhile.trans {u : Site} (h : Meanwhile s t) (h' : Meanwhile t u) : Meanwhile s u where
  pending name := (h'.pending name).trans (h.pending name)
  lastDelivered name := (h'.lastDelivered name).trans (h.lastDelivered name)
  lastId_le name := (h.lastId_le name).trans (h'.lastId_le name)
  ordered name hs := h'.ordered name (h.ordered name hs)
  entries name x hx := by
    rcases h'.entries name x hx with hx | hnew
    · exact h.entries name x hx
    · exact Or.inr ((h.lastId_le name).trans_lt hnew)
  now_le := h.now_le.trans h'.now_le
  processed := h'.processed.trans h.processed
  failed := h'.failed.trans h.failed
  stopping hs := h'.stopping (h.stopping hs)

/-- Nothing happens to the streams. -/
theorem Meanwhile.of_streams (hstreams : ∀ name, t.stream name = s.stream name)
    (hnow : s.now ≤ t.now) (hprocessed : t.processed = s.processed) (hfailed : t.failed = s.failed)
    (hstopping : s.stopping → t.stopping) : Meanwhile s t where
  pending name := by rw [hstreams]
  lastDelivered name := by rw [hstreams]
  lastId_le name := by rw [hstreams]
  ordered name h := by rwa [hstreams]
  entries name x hx := by
    rw [hstreams] at hx
    exact Or.inl hx
  now_le := hnow
  processed := hprocessed
  failed := hfailed
  stopping := hstopping

/-- What one stream sees of a command on another, or of its own `XADD` and `XDEL`. -/
theorem meanwhile_update {f : Stream (Option JobId) → Stream (Option JobId)}
    (hpending : ∀ u, (f u).pending = u.pending) (hdelivered : ∀ u, (f u).lastDelivered = u.lastDelivered)
    (hlast : ∀ u, u.lastId ≤ (f u).lastId) (hordered : ∀ u, u.Ordered → (f u).Ordered)
    (hentries : ∀ u, ∀ x ∈ (f u).entries, x ∈ u.entries ∨ u.lastId < x.id) :
    Meanwhile s (s.update name f) := by
  have hcases : ∀ other, (s.update name f).stream other = s.stream other ∨
      (s.update name f).stream other = f (s.stream other) := by
    intro other
    by_cases h : other = name
    · subst h
      exact Or.inr (stream_update_self f)
    · exact Or.inl (stream_update_of_ne f h)
  refine ⟨fun other => ?_, fun other => ?_, fun other => ?_, fun other hs => ?_, fun other x hx => ?_,
    (now_update f).ge, processed_update f, failed_update f, fun hs => (stopping_update f).trans hs⟩ <;>
    rcases hcases other with heq | heq
  · rw [heq]
  · rw [heq, hpending]
  · rw [heq]
  · rw [heq, hdelivered]
  · rw [heq]
  · rw [heq]
    exact hlast _
  · rwa [heq]
  · rw [heq]
    exact hordered _ hs
  · rw [heq] at hx
    exact Or.inl hx
  · rw [heq] at hx
    exact hentries _ x hx

theorem event_meanwhile (s : Site) (e : Event) : Meanwhile s (s.event e) := by
  cases e with
  | sleep seconds =>
    exact .of_streams (fun name => by cases name <;> rfl) (Nat.le_add_right _ _) rfl rfl id
  | signal =>
    exact .of_streams (fun name => by cases name <;> rfl) (Nat.le_refl _) rfl rfl fun _ => rfl
  | publish name fields =>
    refine meanwhile_update (fun _ => rfl) (fun _ => rfl) (fun _ => Nat.le_succ _)
      (fun _ hu => hu.xadd fields) fun u x hx => ?_
    rcases List.mem_append.mp hx with hx | hx
    · exact Or.inl hx
    · rw [List.mem_singleton.mp hx]
      exact Or.inr (Nat.lt_succ_self _)
  | remove name entry =>
    exact meanwhile_update (fun _ => rfl) (fun _ => rfl) (fun _ => Nat.le_refl _)
      (fun _ hu => hu.xdel entry) fun u x hx => Or.inl (List.mem_of_mem_filter hx)

theorem happen_meanwhile (s : Site) (events : List Event) : Meanwhile s (s.happen events) := by
  induction events generalizing s with
  | nil => exact Meanwhile.refl s
  | cons e events ih => exact (event_meanwhile s e).trans (ih (s.event e))

theorem meanwhile_meanwhile (around : Surroundings) (s : Site) :
    Meanwhile s (s.meanwhile around) :=
  (happen_meanwhile s (around.events s.clock)).trans
    (.of_streams (fun name => by cases name <;> rfl) (Nat.le_refl _) rfl rfl id)

end Site

/-! ## Operations -/

/-- What holds at a site still holds when the next operation finds it. -/
def Stable (around : Surroundings) (P : Site → Prop) : Prop := ∀ s, P s → P (s.meanwhile around)

theorem stable_of_meanwhile {P : Site → Prop} (h : ∀ s t, P s → Site.Meanwhile s t → P t) :
    Stable around P :=
  fun s hs => h s _ hs (Site.meanwhile_meanwhile around s)

/-- **One operation.** -/
theorem triple_operate {α : Type} {f : Site → α × Site} {P E : Site → Prop} {Q : α → Site → Prop}
    (hP : Stable around P) (hQ : ∀ s, P s → Q (f s).1 (f s).2) (hE : ∀ s, P s → E s) :
    Triple P (operate around f) Q E := by
  intro s hs
  have hfound := hP s hs
  unfold operate
  by_cases hdies : around.diesAt = some s.clock
  · simp only [hdies, if_true]
    exact hE _ hfound
  · simp only [hdies, if_false]
    exact hQ _ hfound

theorem triple_perform {f : Site → Site} {P Q E : Site → Prop} (hP : Stable around P)
    (hQ : ∀ s, P s → Q (f s)) (hE : ∀ s, P s → E s) :
    Triple P (perform around f) (fun _ => Q) E :=
  triple_operate hP hQ hE

theorem keeps_operate {α : Type} {f : Site → α × Site} {I : Site → Prop} (hI : Stable around I)
    (hf : ∀ s, I s → I (f s).2) : Keeps I (operate around f) :=
  triple_operate hI hf fun _ h => h

namespace Consumer

variable {c : Consumer} {entry : ℕ} {fields : Option JobId}

theorem triple_ackAndRemove {P A Q E : Site → Prop} (hP : Stable around P) (hA : Stable around A)
    (hack : ∀ s, P s → A (s.update c.streamName (Stream.xack entry)))
    (hdel : ∀ s, A s → Q (s.update c.streamName (Stream.xdel entry)))
    (hPE : ∀ s, P s → E s) (hAE : ∀ s, A s → E s) :
    Triple P (c.ackAndRemove around entry) (fun _ => Q) E :=
  (triple_perform hP hack hPE).bind fun _ => triple_perform hA hdel hAE

/-- **`_give_up`** acknowledges and removes the entry, whatever becomes of its record. -/
theorem triple_giveUp {P A Q E : Site → Prop} (hP : Stable around P) (hA : Stable around A)
    (hrecorded : ∀ s, P s → P (s.recorded c.streamName entry))
    (hack : ∀ s, P s → A (s.update c.streamName (Stream.xack entry)))
    (hdel : ∀ s, A s → Q (s.update c.streamName (Stream.xdel entry)))
    (hPE : ∀ s, P s → E s) (hAE : ∀ s, A s → E s) :
    Triple P (c.giveUp around entry) (fun _ => Q) E := by
  have hfields : Triple P (c.fieldsFor around entry) (fun _ => P) E :=
    triple_operate hP (fun _ hs => hs) hPE
  have hrecord : ∀ found, Triple P (c.recordGiveUp around entry found) (fun _ => P) E := by
    intro found
    unfold recordGiveUp
    split
    · exact triple_perform hP hrecorded hPE
    · exact triple_pure fun _ hs => hs
  exact hfields.bind fun found => (hrecord found).bind fun _ =>
    triple_ackAndRemove hP hA hack hdel hPE hAE

/-- **`process_entry`** logs its call and then acknowledges and removes the entry, unless
the handler does not finish it. -/
theorem triple_processEntry {P R A Q E : Site → Prop} (hP : Stable around P) (hR : Stable around R)
    (hA : Stable around A) (hlog : ∀ s, P s → R (s.log c.streamName entry))
    (hack : ∀ s, R s → A (s.update c.streamName (Stream.xack entry)))
    (hdel : ∀ s, A s → Q (s.update c.streamName (Stream.xdel entry)))
    (hleft : fields ≠ none → around.handle c.streamName entry ≠ .finished → ∀ s, R s → Q s)
    (hPE : ∀ s, P s → E s) (hRE : ∀ s, R s → E s) (hAE : ∀ s, A s → E s) :
    Triple P (c.processEntry around entry fields) (fun _ => Q) E := by
  refine (triple_perform hP hlog hPE).bind fun _ => ?_
  cases fields with
  | none => exact triple_ackAndRemove hR hA hack hdel hRE hAE
  | some id =>
    have hhandle : Triple R (c.handle around entry)
        (fun handled s => handled = around.handle c.streamName entry ∧ R s) E :=
      triple_operate hR (fun s hs => ⟨rfl, hs⟩) hRE
    refine hhandle.bind fun handled => triple_of_imp fun hhandled => ?_
    refine triple_ite (fun _ => triple_ackAndRemove hR hA hack hdel hRE hAE) fun hnot => ?_
    exact triple_pure (hleft nofun (hhandled ▸ hnot))

/-- An invariant of every operation a consumer does. -/
structure Respects (around : Surroundings) (I : Site → Prop) (c : Consumer) : Prop where
  stable : Stable around I
  log : ∀ s entry, I s → I (s.log c.streamName entry)
  recorded : ∀ s entry, I s → I (s.recorded c.streamName entry)
  xack : ∀ s entry, I s → I (s.update c.streamName (Stream.xack entry))
  xdel : ∀ s entry, I s → I (s.update c.streamName (Stream.xdel entry))
  xreadgroup : ∀ s consumer count, I s →
    I (s.update c.streamName (Stream.xreadgroup consumer s.now count))
  xclaim : ∀ s consumer minIdle entry, I s →
    I (s.update c.streamName (Stream.xclaim consumer minIdle s.now entry))

namespace Respects

variable {I : Site → Prop} (h : Respects around I c)

include h

theorem readNext : Keeps I (c.readNext around) :=
  keeps_operate h.stable fun s hs => h.xreadgroup s _ _ hs

theorem claimNewEntries : Keeps I (c.claimNewEntries around) :=
  triple_perform h.stable (fun s hs => h.xreadgroup s _ _ hs) fun _ hs => hs

theorem pendingEntries : Keeps I (c.pendingEntries around) := keeps_operate h.stable fun _ hs => hs

theorem fieldsFor (entry : ℕ) : Keeps I (c.fieldsFor around entry) :=
  keeps_operate h.stable fun _ hs => hs

theorem processEntry (entry : ℕ) (fields : Option JobId) :
    Keeps I (c.processEntry around entry fields) :=
  triple_processEntry h.stable h.stable h.stable (fun s hs => h.log s entry hs)
    (fun s hs => h.xack s entry hs) (fun s hs => h.xdel s entry hs) (fun _ _ _ hs => hs)
    (fun _ hs => hs) (fun _ hs => hs) fun _ hs => hs

theorem giveUp (entry : ℕ) : Keeps I (c.giveUp around entry) :=
  triple_giveUp h.stable h.stable (fun s hs => h.recorded s entry hs)
    (fun s hs => h.xack s entry hs)
    (fun s hs => h.xdel s entry hs) (fun _ hs => hs) fun _ hs => hs

theorem reclaimOne (d : Delivery) : Keeps I (c.reclaimOne around d) := by
  refine triple_ite (fun _ => h.giveUp d.id) fun _ => ?_
  refine Keeps.bind (keeps_operate h.stable fun s hs => h.xclaim s _ _ _ hs) fun claimed => ?_
  cases claimed with
  | none => exact keeps_pure ()
  | some fields => exact h.processEntry d.id fields

theorem reclaimEach (pending : List Delivery) : Keeps I (c.reclaimEach around pending) := by
  induction pending with
  | nil => exact keeps_pure ()
  | cons d pending ih => exact (h.reclaimOne d).bind fun _ => ih

theorem reclaimStuckJobs : Keeps I (c.reclaimStuckJobs around) :=
  (keeps_operate h.stable fun _ hs => hs).bind h.reclaimEach

end Respects

end Consumer

/-! ## Sound sites -/

/-- Both streams are ordered, and each id is pending once. -/
structure Site.Sound (s : Site) : Prop where
  ordered : ∀ name, (s.stream name).Ordered
  sorted : ∀ name, (s.stream name).SortedPending

theorem Site.Sound.empty : Site.Sound {} :=
  ⟨fun name => by cases name <;> exact Stream.Ordered.empty,
    fun name => by cases name <;> exact Stream.SortedPending.empty⟩

theorem Site.Sound.of_streams (h : s.Sound) (hst : ∀ name, t.stream name = s.stream name) :
    t.Sound :=
  ⟨fun name => hst name ▸ h.ordered name, fun name => hst name ▸ h.sorted name⟩

theorem Site.Sound.meanwhile (h : s.Sound) (hst : Site.Meanwhile s t) : t.Sound := by
  refine ⟨fun name => hst.ordered name (h.ordered name), fun name => ?_⟩
  rw [Stream.SortedPending, hst.pending name]
  exact h.sorted name

/-- A command on one stream keeps a site sound. -/
theorem Site.Sound.update {f : Stream (Option JobId) → Stream (Option JobId)} (h : s.Sound)
    (hordered : (s.stream name).Ordered → (f (s.stream name)).Ordered)
    (hsorted : (s.stream name).SortedPending → (f (s.stream name)).SortedPending) :
    (s.update name f).Sound := by
  constructor <;> intro other <;> by_cases hother : other = name
  · subst hother
    rw [stream_update_self]
    exact hordered (h.ordered other)
  · rw [stream_update_of_ne f hother]
    exact h.ordered other
  · subst hother
    rw [stream_update_self]
    exact hsorted (h.sorted other)
  · rw [stream_update_of_ne f hother]
    exact h.sorted other

/-- **Everything a consumer does keeps a site sound.** -/
theorem Site.Sound.respects (around : Surroundings) (c : Consumer) :
    c.Respects around Site.Sound where
  stable := stable_of_meanwhile fun _ _ h hst => h.meanwhile hst
  log _ _ h := h.of_streams fun _ => stream_log
  recorded _ _ h := h.of_streams fun _ => stream_recorded
  xack _ entry h := h.update (fun hs => hs.xack entry) fun hs => hs.xack entry
  xdel _ entry h := h.update (fun hs => hs.xdel entry) id
  xreadgroup s consumer count h :=
    h.update (fun hs => hs.xreadgroup consumer s.now count)
      fun hs => hs.xreadgroup (h.ordered _) consumer s.now count
  xclaim s consumer minIdle entry h :=
    h.update (fun hs => hs.xclaim consumer minIdle s.now entry)
      fun hs => hs.xclaim consumer minIdle s.now entry

/-- An invariant of sound sites that every command on the stream keeps. -/
theorem Consumer.Respects.of_update {c : Consumer} {I : Site → Prop}
    (hsound : ∀ s, I s → s.Sound) (hstable : Stable around I)
    (hlog : ∀ s entry, I s → I (s.log c.streamName entry))
    (hrecorded : ∀ s entry, I s → I (s.recorded c.streamName entry))
    (hupdate : ∀ (s : Site) (f : Stream (Option JobId) → Stream (Option JobId)), I s →
      (s.update c.streamName f).Sound → I (s.update c.streamName f)) : c.Respects around I where
  stable := hstable
  log := hlog
  recorded := hrecorded
  xack s entry hs :=
    hupdate s _ hs ((Site.Sound.respects around c).xack s entry (hsound s hs))
  xdel s entry hs :=
    hupdate s _ hs ((Site.Sound.respects around c).xdel s entry (hsound s hs))
  xreadgroup s consumer count hs :=
    hupdate s _ hs ((Site.Sound.respects around c).xreadgroup s consumer count (hsound s hs))
  xclaim s consumer minIdle entry hs :=
    hupdate s _ hs ((Site.Sound.respects around c).xclaim s consumer minIdle entry (hsound s hs))

/-! ## The loop -/

namespace Scheduler

variable {sched : Scheduler} {I : Site → Prop}

theorem keeps_processFirst {c : Consumer} {messages : List (Entry (Option JobId))}
    (h : ∀ e ∈ messages, Keeps I (c.processEntry around e.id e.fields)) :
    Keeps I (processFirst around c messages) := by
  induction messages with
  | nil => exact keeps_pure ()
  | cons e messages ih =>
    refine (keeps_read _).bind fun stopping => triple_ite (fun _ => keeps_pure ()) fun _ => ?_
    exact (h e List.mem_cons_self).bind fun _ => ih fun x hx => h x (List.mem_cons_of_mem e hx)

theorem keeps_tickPrep (h : sched.songsPrep.Respects around I) :
    Keeps I (sched.tickPrep around) := by
  have hnext : Keeps I (sched.processNextPrep around) := by
    refine h.claimNewEntries.bind fun _ => h.pendingEntries.bind fun pending => ?_
    cases pending with
    | nil => exact keeps_pure false
    | cons d pending =>
      refine (h.fieldsFor d.id).bind fun fields => ?_
      cases fields with
      | none => exact keeps_pure false
      | some fields => exact (h.processEntry d.id fields).bind fun _ => keeps_pure true
  have hmatching : ∀ songId pending, Keeps I (sched.processMatching around songId pending) := by
    intro songId pending
    induction pending with
    | nil => exact keeps_pure false
    | cons d pending ih =>
      refine (h.fieldsFor d.id).bind fun fields => triple_ite (fun _ => ?_) fun _ => ih
      exact (h.processEntry d.id (some songId)).bind fun _ => keeps_pure true
  refine Keeps.bind (keeps_operate h.stable fun _ hs => hs) fun songId => ?_
  cases songId with
  | none => exact hnext
  | some songId =>
    refine Keeps.bind ?_ fun found => triple_ite (fun _ => keeps_pure true) fun _ => hnext
    exact h.claimNewEntries.bind fun _ => h.pendingEntries.bind (hmatching songId)

/-- **An invariant of the loop**: it is one of `songs:prep`, and of processing the entries
`analyses:run` delivers. -/
theorem keeps_iterate {G : Entry (Option JobId) → Prop}
    (hread : Triple I (sched.analyses.readNext around) (fun l s => (∀ e ∈ l, G e) ∧ I s) I)
    (hentry : ∀ e, G e → Keeps I (sched.analyses.processEntry around e.id e.fields))
    (hs : sched.songsPrep.Respects around I) : Keeps I (sched.iterate around) := by
  have hfirst : ∀ l : List (Entry (Option JobId)), (∀ e ∈ l, G e) →
      Keeps I (processFirst around sched.analyses l) :=
    fun l hl => keeps_processFirst fun e he => hentry e (hl e he)
  refine Keeps.bind ?_ fun found => triple_ite (fun _ => keeps_pure ()) fun _ => ?_
  · refine (keeps_read _).bind fun stopping => triple_ite (fun _ => keeps_pure false) fun _ => ?_
    refine hread.bind fun entries => triple_of_imp fun hgood => ?_
    cases entries with
    | nil => exact keeps_tickPrep hs
    | cons e entries => exact (hfirst (e :: entries) hgood).bind fun _ => keeps_pure true
  · refine hread.bind fun entries => triple_of_imp fun hgood => ?_
    cases entries with
    | nil => exact keeps_pure ()
    | cons e entries =>
      refine (keeps_read _).bind fun stopping => triple_ite (fun _ => keeps_pure ()) fun _ => ?_
      exact hfirst (e :: entries) hgood

theorem sound_iterate : Keeps Site.Sound (sched.iterate around) :=
  keeps_iterate (G := fun _ => True)
    (((Site.Sound.respects around sched.analyses).readNext).weaken (fun _ h => h)
      (fun _ _ h => ⟨fun _ _ => trivial, h⟩) fun _ h => h)
    (fun e _ => (Site.Sound.respects around sched.analyses).processEntry e.id e.fields)
    (Site.Sound.respects around sched.songsPrep)

theorem keeps_startUp (ha : sched.analyses.Respects around I)
    (hs : sched.songsPrep.Respects around I) : Keeps I (sched.startUp around) :=
  ha.reclaimStuckJobs.bind fun _ => hs.reclaimStuckJobs

end Scheduler

/-! ## The life of the worker -/

/-- The site is sound, and each consumer of the process is the one of its stream. -/
structure Process.Sound (p : Process) : Prop where
  site : p.site.Sound
  scheduler : ∀ sched ∈ p.scheduler, ∃ consumerName, sched = .ofConsumer consumerName

theorem Process.Sound.empty : Process.Sound {} := ⟨Site.Sound.empty, nofun⟩

/-- **Every step keeps a process sound**, also one it dies in. -/
theorem Process.Sound.step {p p' : Process} {a : QueueAction} (h : p.Sound)
    (hstep : queueStep p a = some p') : p'.Sound := by
  have hran : ∀ sched (r : Option Unit × Site), (∃ consumerName, sched = .ofConsumer consumerName) →
      r.2.Sound → (Process.ran sched r).Sound := by
    rintro sched ⟨_ | _, s⟩ hsched hs
    · exact ⟨hs, nofun⟩
    · exact ⟨hs, fun _ heq => by cases heq; exact hsched⟩
  cases a with
  | start consumerName around =>
    rw [queueStep, Option.ite_none_right_eq_some] at hstep
    obtain ⟨-, hstep⟩ := hstep
    cases hstep
    have hstarting : p.site.starting.Sound := h.site.of_streams fun _ => Site.stream_starting
    refine hran _ _ ⟨consumerName, rfl⟩ (Keeps.final ?_ hstarting)
    exact Scheduler.keeps_startUp (Site.Sound.respects around _) (Site.Sound.respects around _)
  | iterate around =>
    obtain ⟨sched, hsched, hstep⟩ := Option.bind_eq_some_iff.mp hstep
    rw [Option.ite_none_left_eq_some] at hstep
    obtain ⟨-, hstep⟩ := hstep
    cases hstep
    have hagain : p.site.again.Sound := h.site.of_streams fun _ => Site.stream_again
    exact hran _ _ (h.scheduler sched hsched) (Keeps.final Scheduler.sound_iterate hagain)
  | leave =>
    rw [queueStep, Option.ite_none_right_eq_some] at hstep
    obtain ⟨-, hstep⟩ := hstep
    cases hstep
    exact ⟨h.site, nofun⟩
  | kill =>
    cases hstep
    exact ⟨h.site, nofun⟩
  | outside events =>
    cases hstep
    exact ⟨h.site.meanwhile (Site.happen_meanwhile p.site events), h.scheduler⟩

end VocalCoach
