/-
# Who honours the stop signal

The loop of the scheduler begins a pipeline entry only after it has looked at the stop flag
(`triple_iterate`).  The start-up reclaim does not look: it goes the same way whether or not
anybody signals (`alike_startUp`), so the moments at which it begins its entries, in a course
without signals, say which signals it honours (`HeardInTime`).

A job is interrupted only by the flag; its entry stays pending, and its row has what the runner
knows to be finished (`Shift.Left`).
-/
import VocalCoach.GracefulStop

namespace VocalCoach

open RedisStream Fallible Machine

namespace Shutdown

open Pipeline (Completed Context Failures Mode Outcome runEntry remainingEntries stagesForMode
  flatten)

variable {Job Data α : Type} {around : Surroundings} {mishaps : Mishaps}
  {pipes : Pipelines Job Data} {w : Shift Data} {I D : Shift Data → Prop}
  {E : Exit → Shift Data → Prop} {name : StreamName} {entry : ℕ} {job : JobId}
  {shouldStop : Site → Bool}

/-! ## Operations -/

/-- The process acknowledges nothing, and what it has been asked stays asked. -/
structure Grows (s t : Site) : Prop where
  pending : ∀ name, ∀ d ∈ (s.stream name).pending, d ∈ (t.stream name).pending
  stopping : s.stopping = true → t.stopping = true

theorem Grows.refl (s : Site) : Grows s s := ⟨fun _ _ hd => hd, id⟩

theorem grows_meanwhile (around : Surroundings) (s : Site) : Grows s (s.meanwhile around) := by
  have hst := Site.meanwhile_meanwhile around s
  refine ⟨fun name d hd => ?_, hst.stopping⟩
  rw [hst.pending]
  exact hd

theorem grows_xreadgroup (name : StreamName) (consumer now count : ℕ) (s : Site) :
    Grows s (s.update name (Stream.xreadgroup consumer now count)) := by
  refine ⟨fun other d hd => ?_, fun hs => (Site.stopping_update _).trans hs⟩
  by_cases h : other = name
  · subst h
    rw [Site.stream_update_self]
    exact List.mem_append_left _ hd
  · rw [Site.stream_update_of_ne _ h]
    exact hd

/-- What holds of a shift holds still when its site grows. -/
def Patient (I : Shift Data → Prop) : Prop := ∀ w s, I w → Grows w.site s → I { w with site := s }

/-- A row of the entry is pending. -/
def Held (name : StreamName) (entry : ℕ) (s : Site) : Prop :=
  ∃ d ∈ (s.stream name).pending, d.id = entry

theorem Held.grows {s t : Site} (h : Held name entry s) (hgrows : Grows s t) :
    Held name entry t := by
  obtain ⟨d, hd, hid⟩ := h
  exact ⟨d, hgrows.pending name d hd, hid⟩

theorem patient_and {G : Site → Prop} (hG : ∀ s t, G s → Grows s t → G t) (hI : Patient I) :
    Patient fun w => G w.site ∧ I w := fun w s hw hgrows =>
  ⟨hG w.site s hw.1 hgrows, hI w s hw.2 hgrows⟩

/-- **An operation on the streams** that acknowledges nothing. -/
theorem triple_onSite {f : Site → α × Site} {G : α → Site → Prop} (hI : Patient I)
    (hf : ∀ s, Grows s (f s).2) (hG : ∀ s, G (f s).1 (f s).2) (hE : ∀ e w, I w → E e w) :
    Triple I (onSite (operate around f)) (fun a w => G a w.site ∧ I w) E := by
  intro w hw
  have hfound := hI w _ hw (grows_meanwhile around w.site)
  unfold onSite operate
  by_cases hdies : around.diesAt = some w.site.clock
  · simp only [hdies, if_true]
    exact hE _ _ hfound
  · simp only [hdies, if_false]
    exact ⟨hG _, hI { w with site := w.site.meanwhile around } _ hfound (hf _)⟩

/-- **An operation of a handler.** -/
theorem triple_attempt {f : Shift Data → α × Shift Data} {Q : α → Shift Data → Prop}
    (hI : ∀ w, I w → I { w with site := w.site.meanwhile around })
    (hf : ∀ w, I w → Q (f w).1 (f w).2) (hE : ∀ e w, I w → E e w) :
    Triple I (attempt around mishaps f) Q E := by
  intro w hw
  have hfound := hI w hw
  unfold attempt
  dsimp only
  split
  next h =>
    split at h
    next => cases h
    next => split at h <;> cases h; exact hf _ hfound
  next h =>
    split at h
    next => cases h; exact hE _ _ hfound
    next =>
      split at h
      next => cases h; exact hE _ _ hfound
      next => cases h

section Reads

variable {c : Consumer} (hI : Patient I) (hE : ∀ e w, I w → E e w)
include hI hE

theorem triple_readNext :
    Triple I (onSite (c.readNext around) : Work Data (List (Entry (Option JobId))))
      (fun l w => (l.length ≤ 1 ∧ ∀ x ∈ l, Held c.streamName x.id w.site) ∧ I w) E := by
  refine triple_onSite (G := fun (l : List (Entry (Option JobId))) s =>
    l.length ≤ 1 ∧ ∀ x ∈ l, Held c.streamName x.id s) hI
    (fun s => grows_xreadgroup _ _ _ _ s) (fun s => ⟨List.length_take_le _ _, fun x hx => ?_⟩) hE
  refine ⟨⟨x.id, c.consumerName, s.now, 1⟩, ?_, rfl⟩
  rw [Site.stream_update_self]
  exact List.mem_append_right _ (List.mem_map_of_mem hx)

theorem triple_claimNewEntries :
    Triple I (onSite (c.claimNewEntries around) : Work Data Unit) (fun _ => I) E :=
  (triple_onSite (f := fun s => ((), s.update c.streamName
      (Stream.xreadgroup c.consumerName s.now reclaimBatchSize))) (G := fun _ _ => True) hI
    (fun s => grows_xreadgroup _ _ _ _ s) (fun _ => trivial) hE).weaken (fun _ h => h)
    (fun _ _ h => h.2) fun _ _ h => h

theorem triple_pendingEntries :
    Triple I (onSite (c.pendingEntries around) : Work Data (List Delivery))
      (fun l w => (∀ d ∈ l, Held c.streamName d.id w.site) ∧ I w) E := by
  refine triple_onSite (G := fun (l : List Delivery) s => ∀ d ∈ l, Held c.streamName d.id s) hI
    (fun s => Grows.refl s) (fun s d hd => ?_) hE
  exact ⟨d, List.mem_of_mem_filter (List.mem_of_mem_take hd), rfl⟩

/-- An operation that only looks. -/
theorem triple_onSite_look {g : Site → α} :
    Triple I (onSite (operate around fun s => (g s, s)) : Work Data α) (fun _ => I) E :=
  (triple_onSite (G := fun _ _ => True) hI (fun s => Grows.refl s) (fun _ => trivial) hE).weaken
    (fun _ h => h) (fun _ _ h => h.2) fun _ _ h => h

end Reads

/-! ## The loop -/

/-- **An iteration** in general: `I` holds until an entry is handed to its handler, and `D` from
then on. -/
theorem triple_iterate {sched : Scheduler} (hI : Patient I) (hIE : ∀ e w, I w → E e w)
    (hprocess : ∀ (c : Consumer) (entry : ℕ) (fields : Option JobId),
      Triple (fun w => Held c.streamName entry w.site ∧ I w)
        (processEntry around mishaps pipes c entry fields Site.stopping) (fun _ => D) E) :
    Triple I (iterate around mishaps pipes sched) (fun _ w => I w ∨ D w) E := by
  have hclaim : Triple I (onSite (sched.songsPrep.claimNewEntries around)) (fun _ => I) E :=
    triple_claimNewEntries hI hIE
  have hpending := @triple_pendingEntries Data around I E sched.songsPrep hI hIE
  have hfields : ∀ (rows : List Delivery) entry,
      Triple (fun w => (∀ d ∈ rows, Held sched.songsPrep.streamName d.id w.site) ∧ I w)
        (onSite (sched.songsPrep.fieldsFor around entry))
        (fun _ w => (∀ d ∈ rows, Held sched.songsPrep.streamName d.id w.site) ∧ I w) E := by
    intro rows entry
    refine triple_onSite_look (patient_and
      (G := fun s => ∀ d ∈ rows, Held sched.songsPrep.streamName d.id s)
      (fun s t hs hgrows d hd => ?_) hI) fun e w hw => hIE e w hw.2
    exact (hs d hd).grows hgrows
  have hnext : Triple I (processNextPrep around mishaps pipes sched)
      (fun found w => if found then D w else I w) E := by
    refine hclaim.bind fun _ => hpending.bind fun pending => ?_
    cases pending with
    | nil => exact triple_pure fun _ hw => hw.2
    | cons d pending =>
      refine (hfields _ d.id).bind fun fields => ?_
      cases fields with
      | none => exact triple_pure fun _ hw => hw.2
      | some fields =>
        refine Triple.bind ((hprocess _ d.id fields).weaken (fun w hw => ?_) (fun _ _ hw => hw)
          fun _ _ hw => hw) fun _ => triple_pure fun _ hw => hw
        exact ⟨hw.1 d List.mem_cons_self, hw.2⟩
  have hmatching : ∀ songId rows,
      Triple (fun w => (∀ d ∈ rows, Held sched.songsPrep.streamName d.id w.site) ∧ I w)
        (processMatching around mishaps pipes sched songId rows)
        (fun found w => if found then D w else I w) E := by
    intro songId rows
    induction rows with
    | nil => exact triple_pure fun _ hw => hw.2
    | cons d rows ih =>
      refine (hfields _ d.id).bind fun fields => triple_ite (fun _ => ?_) fun _ => ?_
      · refine Triple.bind ((hprocess _ d.id (some songId)).weaken (fun w hw => ?_)
          (fun _ _ hw => hw) fun _ _ hw => hw) fun _ => triple_pure fun _ hw => hw
        exact ⟨hw.1 d List.mem_cons_self, hw.2⟩
      · exact ih.weaken (fun w hw => ⟨fun d' hd' => hw.1 d' (List.mem_cons_of_mem _ hd'), hw.2⟩)
          (fun _ _ hw => hw) fun _ _ hw => hw
  have hprep : Triple I (tickPrep around mishaps pipes sched)
      (fun found w => if found then D w else I w) E := by
    have hlookup : Triple I (onSite (Scheduler.oldestWaitingSongId around)) (fun _ => I) E :=
      triple_onSite_look hI hIE
    refine hlookup.bind fun songId => ?_
    cases songId with
    | none => exact hnext
    | some songId =>
      refine Triple.bind (hclaim.bind fun _ => hpending.bind (hmatching songId)) fun found => ?_
      cases found with
      | true => exact triple_pure fun _ hw => hw
      | false => exact hnext
  have hread := @triple_readNext Data around I E sched.analyses hI hIE
  -- at most one entry is delivered
  have hfirst : ∀ x rest, Triple (fun w => ((x :: rest : List (Entry (Option JobId))).length ≤ 1 ∧
      ∀ y ∈ x :: rest, Held sched.analyses.streamName y.id w.site) ∧ I w)
      (processFirst around mishaps pipes sched.analyses (x :: rest)) (fun _ w => I w ∨ D w) E := by
    intro x rest w hw
    obtain rfl : rest = [] := List.length_eq_zero_iff.mp (by simpa using hw.1.1)
    have hone : Triple (fun w => Held sched.analyses.streamName x.id w.site ∧ I w)
        (processFirst around mishaps pipes sched.analyses [x]) (fun _ w => I w ∨ D w) E := by
      refine Triple.bind (Q := fun _ w => Held sched.analyses.streamName x.id w.site ∧ I w)
        (triple_look fun _ hw => hw) fun stopping => triple_ite (fun _ => ?_) fun _ => ?_
      · exact triple_pure fun _ hw => Or.inl hw.2
      · exact (hprocess _ _ _).bind fun _ => triple_look fun _ hw => Or.inr hw
    exact hone w ⟨hw.1.2 x List.mem_cons_self, hw.2⟩
  have htick : Triple I (tick around mishaps pipes sched)
      (fun found w => if found then I w ∨ D w else I w) E := by
    refine Triple.bind (Q := fun _ => I) (triple_look fun _ hw => hw) fun stopping =>
      triple_ite (fun _ => triple_pure fun _ hw => hw) fun _ => ?_
    refine hread.bind fun entries => ?_
    cases entries with
    | nil =>
      refine hprep.weaken (fun w hw => hw.2) (fun found w hw => ?_) fun _ _ hw => hw
      cases found with
      | true => exact Or.inr hw
      | false => exact hw
    | cons x rest => exact (hfirst x rest).bind fun _ => triple_pure fun _ hw => hw
  refine htick.bind fun found => ?_
  cases found with
  | true => exact triple_pure fun _ hw => hw
  | false =>
    refine hread.bind fun entries => ?_
    cases entries with
    | nil => exact triple_pure fun _ hw => Or.inl hw.2
    | cons x rest =>
      refine Triple.bind (Q := fun _ w => _) (triple_look fun _ hw => hw) fun stopping =>
        triple_ite (fun _ => triple_pure fun _ hw => Or.inl hw.2) fun _ => hfirst x rest

/-! ## A job -/

/-- A program on the streams changes nothing else. -/
theorem preserves_onSite (hI : ∀ w s, I w → I { w with site := s }) (x : Program.Prog Site α) :
    Preserves I (onSite x) := by
  intro w hw
  unfold onSite
  cases x w.site with
  | mk result s => cases result <;> exact hI w s hw

section Job

variable {G : Site → Prop} {B : List Begun → Prop} {l : List (Interruption Data)}

/-- While a job runs: `B` holds of what has been begun, and `completed` is saved. -/
def Underway (G : Site → Prop) (B : List Begun → Prop) (l : List (Interruption Data))
    (name : StreamName) (job : JobId) (completed : Completed Data) (w : Shift Data) : Prop :=
  G w.site ∧ B w.begun ∧ w.interrupted = l ∧ w.stages name job = completed

/-- An interruption of the entry at hand, where `G` holds: what had been finished is saved, and
`should_stop` does not let the job go on. -/
def Halted (G : Site → Prop) (shouldStop : Site → Bool) (name : StreamName) (entry : ℕ)
    (w : Shift Data) (i : Interruption Data) : Prop :=
  (i.stream = name ∧ i.entry = entry) ∧ G w.site ∧ w.stages i.stream i.job = i.completed ∧
    shouldStop w.site = true

theorem forall_interrupted_of_nil {P : Interruption Data → Prop} (h : w.interrupted = []) :
    ∀ i ∈ w.interrupted, P i := by
  rw [h]
  exact List.forall_mem_nil P

/-- `save_stage_progress` of all results saves what the runner knows. -/
theorem triple_saveEach (hG : Stable around G) (results : List (Pipeline.StageResult Data))
    (context : Context Job Data) :
    Triple (Underway G B l name job context.completed) (saveEach around mishaps name job results)
      (fun _ => Underway G B l name job (results.foldl Context.withResult context).completed)
      (fun _ w => B w.begun ∧ w.interrupted = l) := by
  induction results generalizing context with
  | nil => exact triple_pure fun _ hw => hw
  | cons r results ih =>
    refine Triple.bind (Q := fun _ => Underway G B l name job (context.withResult r).completed)
      (triple_attempt (fun w hw => ⟨hG _ hw.1, hw.2⟩) (fun w hw => ?_) fun _ w hw => ⟨hw.2.1, hw.2.2.1⟩)
      fun _ => ih (context.withResult r)
    obtain ⟨hsite, hbegun, hinterrupted, hsaved⟩ := hw
    refine ⟨hsite, hbegun, hinterrupted, ?_⟩
    unfold Shift.save Context.withResult
    dsimp only
    rw [Function.update_self, Function.update_self, hsaved]

/-- **The loop of `run`**: it begins an entry only where `should_stop` lets it, is interrupted
only where it does not, and what it knows to be finished is saved. -/
theorem triple_runEntries (hG : Stable around G)
    (hB : ∀ (w : Shift Data) (entry : Pipeline.Entry Job Data), B w.begun → shouldStop w.site = false →
      B (w.begin name job entry).begun)
    (entries : List (Pipeline.Entry Job Data)) (context : Context Job Data) :
    Triple (Underway G B l name job context.completed)
      (runEntries around mishaps name job shouldStop entries context)
      (fun r w => Underway G B l name job r.2.completed w ∧
        (r.1 = .interrupted → shouldStop w.site = true))
      (fun _ w => B w.begun ∧ w.interrupted = l) := by
  have hop : ∀ {β : Type} (completed : Completed Data) (b : β),
      Triple (Underway G B l name job completed) (attempt around mishaps fun w => (b, w))
        (fun a w => a = b ∧ Underway G B l name job completed w)
        (fun _ w => B w.begun ∧ w.interrupted = l) := fun completed b =>
    triple_attempt (fun w hw => ⟨hG _ hw.1, hw.2⟩) (fun w hw => ⟨rfl, hw⟩)
      fun _ w hw => ⟨hw.2.1, hw.2.2.1⟩
  induction entries generalizing context with
  | nil => exact triple_pure fun w hw => ⟨hw, nofun⟩
  | cons entry entries ih =>
    refine Triple.bind
      (Q := fun stop w => shouldStop w.site = stop ∧ Underway G B l name job context.completed w)
      (triple_look fun w hw => ⟨rfl, hw⟩) fun stop => triple_ite (fun hstop => ?_) fun hstop => ?_
    · exact triple_pure fun w hw => ⟨hw.2, fun _ => hw.1.trans hstop⟩
    refine Triple.bind (Q := fun _ => Underway G B l name job context.completed)
      (triple_modify fun w hw => ?_) fun _ => ?_
    · obtain ⟨hlets, hsite, hbegun, hrest⟩ := hw
      exact ⟨hsite, hB w entry hbegun (hlets.trans (Bool.eq_false_iff.mpr hstop)), hrest⟩
    refine (hop context.completed ()).bind fun _ => triple_of_imp fun _ => ?_
    refine (hop context.completed (runEntry (mishaps.fails name job) context entry).1).bind
      fun result => triple_of_imp fun _ => ?_
    cases result with
    | error e => exact triple_pure fun w hw => ⟨hw, nofun⟩
    | ok results => exact (triple_saveEach hG results context).bind fun _ => ih _

theorem triple_run (hG : Stable around G)
    (hB : ∀ (w : Shift Data) (entry : Pipeline.Entry Job Data), B w.begun →
      shouldStop w.site = false → B (w.begin name job entry).begun) (alreadyDone : Completed Data) :
    Triple (Underway G B l name job alreadyDone)
      (run around mishaps pipes name job shouldStop alreadyDone)
      (fun r w => Underway G B l name job r.2.completed w ∧
        (r.1 = .interrupted → shouldStop w.site = true))
      (fun _ w => B w.begun ∧ w.interrupted = l) := by
  have hentries := fun remaining => @triple_runEntries _ _ _ mishaps _ _ _ _ _ l hG hB remaining
    { job := pipes.job name job, completed := alreadyDone }
  refine triple_ite (fun _ => (triple_pure fun _ hw => hw).bind fun _ => hentries _) fun _ => ?_
  refine Triple.bind (Q := fun _ => Underway G B l name job alreadyDone)
    (triple_attempt (fun w hw => ⟨hG _ hw.1, hw.2⟩) (fun _ hw => hw) fun _ w hw => ?_)
    fun _ => hentries _
  exact ⟨hw.2.1, hw.2.2.1⟩

/-- **`handle`** is interrupted only where `should_stop` does not let it go on, with what the
runner knows to be finished saved. -/
theorem triple_handle (hG : Stable around G)
    (hB : ∀ (w : Shift Data) (entry : Pipeline.Entry Job Data), B w.begun → shouldStop w.site = false →
      B (w.begin name job entry).begun) :
    Triple (fun w => G w.site ∧ B w.begun ∧ w.interrupted = [])
      (handle around mishaps pipes name entry job shouldStop)
      (fun terminal w => B w.begun ∧ (terminal = true → w.interrupted = []) ∧
        ∀ i ∈ w.interrupted, Halted G shouldStop name entry w i)
      (fun _ w => B w.begun ∧ w.interrupted = []) := by
  have hget : Triple (fun w : Shift Data => G w.site ∧ B w.begun ∧ w.interrupted = [])
      (attempt around mishaps fun w => (w.stages name job, w))
      (fun alreadyDone => Underway G B [] name job alreadyDone)
      (fun _ w => B w.begun ∧ w.interrupted = []) :=
    triple_attempt (I := fun w => G w.site ∧ B w.begun ∧ w.interrupted = [])
      (fun w hw => ⟨hG _ hw.1, hw.2⟩) (fun w hw => ⟨hw.1, hw.2.1, hw.2.2, rfl⟩) fun _ w hw => hw.2
  refine hget.bind fun alreadyDone => ?_
  refine Triple.bind (triple_run hG hB alreadyDone) fun r => ?_
  obtain ⟨outcome, context⟩ := r
  have hrecord : Triple (fun w => B w.begun ∧ w.interrupted = [])
      (do attempt around mishaps fun w => ((), w); return true : Work Data Bool)
      (fun terminal w => B w.begun ∧ (terminal = true → w.interrupted = []) ∧
        ∀ i ∈ w.interrupted, Halted G shouldStop name entry w i)
      (fun _ w => B w.begun ∧ w.interrupted = []) := by
    refine Triple.bind (Q := fun _ w => B w.begun ∧ w.interrupted = [])
      (triple_attempt (fun _ hw => hw) (fun _ hw => hw) fun _ _ hw => hw) fun _ => ?_
    exact triple_pure fun w hw => ⟨hw.1, fun _ => hw.2, forall_interrupted_of_nil hw.2⟩
  cases outcome with
  | interrupted =>
    refine Triple.bind (Q := fun _ w => B w.begun ∧
        ∀ i ∈ w.interrupted, Halted G shouldStop name entry w i)
      (triple_modify fun w hw => ?_) fun _ => triple_pure fun w hw => ⟨hw.1, nofun, hw.2⟩
    obtain ⟨⟨hsite, hbegun, hinterrupted, hsaved⟩, hstop⟩ := hw
    refine ⟨hbegun, fun i hi => ?_⟩
    dsimp only at hi
    rw [hinterrupted, List.nil_append, List.mem_singleton] at hi
    subst hi
    exact ⟨⟨rfl, rfl⟩, hsite, hsaved, hstop rfl⟩
  | completed =>
    exact hrecord.weaken (fun w hw => ⟨hw.1.2.1, hw.1.2.2.1⟩) (fun _ _ hw => hw) fun _ _ hw => hw
  | raised e =>
    exact hrecord.weaken (fun w hw => ⟨hw.1.2.1, hw.1.2.2.1⟩) (fun _ _ hw => hw) fun _ _ hw => hw

/-- **`process_entry`** leaves an entry whose handler is interrupted as it is. -/
theorem triple_processEntry {c : Consumer} {fields : Option JobId} (hG : Stable around G)
    (hB : ∀ (job : JobId) (w : Shift Data) (entry : Pipeline.Entry Job Data), B w.begun →
      shouldStop w.site = false → B (w.begin c.streamName job entry).begun) :
    Triple (fun w => G w.site ∧ B w.begun ∧ w.interrupted = [])
      (processEntry around mishaps pipes c entry fields shouldStop)
      (fun _ w => B w.begun ∧
        ∀ i ∈ w.interrupted, Halted G shouldStop c.streamName entry w i)
      (fun _ w => B w.begun ∧ w.interrupted = []) := by
  have hack : Triple (fun w : Shift Data => B w.begun ∧ w.interrupted = [])
      (onSite (c.ackAndRemove around entry))
      (fun _ w => B w.begun ∧
        ∀ i ∈ w.interrupted, Halted G shouldStop c.streamName entry w i)
      (fun _ w => B w.begun ∧ w.interrupted = []) :=
    (preserves_onSite (I := fun w => B w.begun ∧ w.interrupted = []) (fun _ _ hw => hw) _).weaken
      (fun _ hw => hw) (fun _ _ hw => ⟨hw.1, forall_interrupted_of_nil hw.2⟩) fun _ _ hw => hw
  cases fields with
  | none => exact hack.weaken (fun _ hw => hw.2) (fun _ _ hw => hw) fun _ _ hw => hw
  | some job =>
    have hhandle := @triple_handle _ _ _ mishaps pipes _ entry job _ _ _ hG (hB job)
    refine Triple.bind (hhandle.tryCatch fun e => triple_ite (fun _ => ?_) fun _ => ?_)
      fun terminal => ?_
    · -- the exception is logged
      exact triple_pure fun w hw => ⟨hw.1, fun _ => hw.2, forall_interrupted_of_nil hw.2⟩
    · exact triple_throw fun w hw => hw
    · cases terminal with
      | true => exact hack.weaken (fun w hw => ⟨hw.1, hw.2.1 rfl⟩) (fun _ _ hw => hw) fun _ _ hw => hw
      | false => exact triple_pure fun w hw => ⟨hw.1, hw.2.2⟩

end Job

/-! ## An iteration -/

/-- What has been begun since, no stop had been asked for. -/
def Unasked (before begun : List Begun) : Prop :=
  ∃ since, begun = before ++ since ∧ ∀ b ∈ since, b.stopping = false

theorem Unasked.concat {before begun : List Begun} {b : Begun} (h : Unasked before begun)
    (hb : b.stopping = false) : Unasked before (begun ++ [b]) := by
  obtain ⟨since, rfl, hunasked⟩ := h
  refine ⟨since ++ [b], List.append_assoc _ _ _, fun b' hb' => ?_⟩
  rcases List.mem_append.mp hb' with hb' | hb'
  · exact hunasked b' hb'
  · rw [List.mem_singleton.mp hb']
    exact hb

/-- The entry of an interrupted job is pending, and its row has what had been finished; the
process is to stop. -/
def Shift.Left (w : Shift Data) (i : Interruption Data) : Prop :=
  Held i.stream i.entry w.site ∧ w.stages i.stream i.job = i.completed ∧ w.site.stopping = true

/-- **An iteration** begins entries only while no stop has been asked for. -/
theorem triple_iterate_unasked (sched : Scheduler) (before : List Begun) :
    Triple (fun w => Unasked before w.begun ∧ w.interrupted = [])
      (iterate around mishaps pipes sched)
      (fun _ w => Unasked before w.begun ∧ ∀ i ∈ w.interrupted, w.Left i)
      (fun _ w => Unasked before w.begun ∧ ∀ i ∈ w.interrupted, w.Left i) := by
  refine (triple_iterate (D := fun w => Unasked before w.begun ∧ ∀ i ∈ w.interrupted, w.Left i)
    (fun _ _ hw _ => hw) (fun _ w hw => ⟨hw.1, forall_interrupted_of_nil hw.2⟩)
    fun c entry fields => ?_).weaken (fun _ hw => hw)
    (fun _ w hw => hw.elim (fun h => ⟨h.1, forall_interrupted_of_nil h.2⟩) id) fun _ _ hw => hw
  refine (triple_processEntry (G := Held c.streamName entry) (B := Unasked before) (fun s hs => ?_)
    fun job w x hw hlets => ?_).weaken (fun _ hw => hw) (fun _ w hw => ⟨hw.1, fun i hi => ?_⟩)
    fun _ w hw => ⟨hw.1, forall_interrupted_of_nil hw.2⟩
  · exact hs.grows (grows_meanwhile around s)
  · exact hw.concat hlets
  · obtain ⟨⟨hstream, hentry⟩, hheld, hsaved, hstop⟩ := hw.2 i hi
    exact ⟨hstream ▸ hentry ▸ hheld, hsaved, hstop⟩

/-! ## The start-up -/

/-- Reclaiming interrupts nothing. -/
theorem preserves_startUp (sched : Scheduler) :
    Preserves (fun w => w.interrupted = []) (startUp around mishaps pipes sched) := by
  have hprocess : ∀ (c : Consumer) (entry : ℕ) (fields : Option JobId),
      Preserves (fun w : Shift Data => w.interrupted = [])
        (processEntry around mishaps pipes c entry fields fun _ => false) := by
    intro c entry fields
    refine (triple_processEntry (G := fun _ => True) (B := fun _ => True) (fun _ _ => trivial)
      fun _ _ _ _ _ => trivial).weaken (fun _ hw => ⟨trivial, trivial, hw⟩) (fun _ w hw => ?_)
      fun _ _ hw => hw.2
    refine List.eq_nil_iff_forall_not_mem.mpr fun i hi => ?_
    exact absurd (hw.2 i hi).2.2.2 nofun
  have hsite : ∀ {β : Type} (x : Program.Prog Site β),
      Preserves (fun w : Shift Data => w.interrupted = []) (onSite x) := fun x =>
    preserves_onSite (fun _ _ hw => hw) x
  have hone : ∀ (c : Consumer) (d : Delivery),
      Preserves (fun w : Shift Data => w.interrupted = []) (reclaimOne around mishaps pipes c d) := by
    intro c d
    refine preserves_ite (hsite _) ((hsite _).bind fun found => ?_)
    cases found with
    | none => exact preserves_pure _
    | some fields => exact hprocess c d.id fields
  have heach : ∀ (c : Consumer) (rows : List Delivery),
      Preserves (fun w : Shift Data => w.interrupted = [])
        (reclaimEach around mishaps pipes c rows) := by
    intro c rows
    induction rows with
    | nil => exact preserves_pure _
    | cons d rows ih => exact (hone c d).bind fun _ => ih
  exact ((hsite _).bind (heach sched.analyses)).bind fun _ =>
    (hsite _).bind (heach sched.songsPrep)

/-! ## The start-up, whether or not anybody signals -/

/-- The same course, but that nobody signals. -/
def deaf (around : Surroundings) : Surroundings :=
  { around with events := fun n => (around.events n).filter fun e => e ≠ .signal }

/-- The signal arrives before the operation. -/
def hears (around : Surroundings) (n : ℕ) : Bool :=
  (List.range n).any fun k => .signal ∈ around.events k

theorem hears_succ (around : Surroundings) (n : ℕ) :
    hears around (n + 1) = (hears around n || decide (.signal ∈ around.events n)) := by
  unfold hears
  rw [List.range_succ, List.any_append, List.any_cons, List.any_nil, Bool.or_false]

theorem hears_eq_false {n : ℕ} :
    hears around n = false ↔ ∀ k < n, Event.signal ∉ around.events k := by
  unfold hears
  rw [List.any_eq_false]
  constructor
  · intro h k hk hmem
    exact h k (List.mem_range.mpr hk) (decide_eq_true hmem)
  · intro h k hk hmem
    exact h k (List.mem_range.mp hk) (of_decide_eq_true hmem)

/-- The site, had nobody signalled. -/
def quiet (s : Site) : Site := { s with stopping := false }

theorem quiet_event {s : Site} {e : Event} (he : e ≠ .signal) :
    (quiet s).event e = quiet (s.event e) := by
  cases e with
  | signal => exact absurd rfl he
  | sleep seconds => rfl
  | publish name fields => cases name <;> rfl
  | remove name entry => cases name <;> rfl

theorem stopping_event (s : Site) (e : Event) :
    (s.event e).stopping = (s.stopping || decide (e = .signal)) ∧ (s.event e).clock = s.clock := by
  cases e with
  | signal => exact ⟨(Bool.or_true _).symm, rfl⟩
  | sleep seconds => exact ⟨(Bool.or_false _).symm, rfl⟩
  | publish name fields => cases name <;> exact ⟨(Bool.or_false _).symm, rfl⟩
  | remove name entry => cases name <;> exact ⟨(Bool.or_false _).symm, rfl⟩

theorem happen_quiet (s : Site) (events : List Event) :
    (quiet s).happen (events.filter fun e => e ≠ .signal) = quiet (s.happen events) ∧
      (s.happen events).stopping = (s.stopping || decide (.signal ∈ events)) ∧
      (s.happen events).clock = s.clock := by
  induction events generalizing s with
  | nil => exact ⟨rfl, (Bool.or_false _).symm, rfl⟩
  | cons e events ih =>
    obtain ⟨hquiet, hstopping, hclock⟩ := ih (s.event e)
    obtain ⟨hflag, hsame⟩ := stopping_event s e
    refine ⟨?_, ?_, hclock.trans hsame⟩
    · by_cases he : e = .signal
      · subst he
        exact hquiet
      · rw [List.filter_cons_of_pos (by simpa using he)]
        change ((quiet s).event e).happen _ = _
        rw [quiet_event he, hquiet]
        rfl
    · refine hstopping.trans ?_
      rw [hflag, Bool.or_assoc]
      simp [eq_comm]

theorem meanwhile_quiet (around : Surroundings) (s : Site) :
    (quiet s).meanwhile (deaf around) = quiet (s.meanwhile around) ∧
      (s.meanwhile around).stopping = (s.stopping || decide (.signal ∈ around.events s.clock)) ∧
      (s.meanwhile around).clock = s.clock + 1 := by
  obtain ⟨hquiet, hstopping, -⟩ := happen_quiet s (around.events s.clock)
  refine ⟨?_, hstopping, rfl⟩
  unfold Site.meanwhile
  change ({ (quiet s).happen ((around.events s.clock).filter fun e => e ≠ .signal) with
    clock := s.clock + 1 } : Site) = _
  rw [hquiet]
  rfl

/-- As it is with the signals. -/
def Begun.hearing (around : Surroundings) (b : Begun) : Begun :=
  { b with stopping := hears around b.clock }

/-- Two shifts since `before`, of which the second has not heard the signals. -/
structure Unheard (around : Surroundings) (before : List Begun) (w v : Shift Data) : Prop where
  site : v.site = quiet w.site
  stages : v.stages = w.stages
  interrupted : v.interrupted = w.interrupted
  flag : w.site.stopping = hears around w.site.clock
  begun : ∃ since, v.begun = before ++ since ∧
    w.begun = before ++ since.map (Begun.hearing around)

section Alike

variable {before : List Begun} {v : Shift Data}

theorem Unheard.meanwhile (h : Unheard around before w v) :
    Unheard around before { w with site := w.site.meanwhile around }
      { v with site := v.site.meanwhile (deaf around) } := by
  obtain ⟨hquiet, hstopping, hclock⟩ := meanwhile_quiet around w.site
  refine ⟨?_, h.stages, h.interrupted, ?_, h.begun⟩
  · dsimp only
    rw [h.site, hquiet]
  · dsimp only
    rw [hstopping, hclock, hears_succ, h.flag]

/-- An operation on the streams that neither reads nor sets the flag. -/
structure Plain (f : Site → α × Site) : Prop where
  clock : ∀ s, (f s).2.clock = s.clock
  stopping : ∀ s, (f s).2.stopping = s.stopping
  quiet : ∀ s, f (quiet s) = ((f s).1, quiet (f s).2)

theorem plain_update (name : StreamName) (g : Site → α)
    (f : ℕ → Stream (Option JobId) → Stream (Option JobId)) (hg : ∀ s, g (quiet s) = g s) :
    Plain fun s => (g s, s.update name (f s.now)) := by
  refine ⟨fun s => ?_, fun s => ?_, fun s => ?_⟩
  · cases name <;> rfl
  · cases name <;> rfl
  · dsimp only
    rw [hg]
    cases name <;> rfl

theorem alike_onSite {f : Site → α × Site} (hf : Plain f) :
    Alike (Unheard around before : Shift Data → Shift Data → Prop) (onSite (operate around f))
      (onSite (operate (deaf around) f)) := by
  intro w v h
  have hfound := h.meanwhile
  have hclock : v.site.clock = w.site.clock := by rw [h.site]; rfl
  have hdies : (deaf around).diesAt = around.diesAt := rfl
  unfold onSite operate
  rw [hdies, hclock]
  by_cases hat : around.diesAt = some w.site.clock
  · simp only [hat, if_true]
    exact ⟨trivial, hfound⟩
  · simp only [hat, if_false]
    have hquiet := hf.quiet (w.site.meanwhile around)
    have hsite : v.site.meanwhile (deaf around) = quiet (w.site.meanwhile around) := hfound.site
    rw [hsite, hquiet]
    refine ⟨rfl, rfl, hfound.stages, hfound.interrupted, ?_, hfound.begun⟩
    dsimp only
    rw [hf.stopping, hf.clock]
    exact hfound.flag

/-- What a program on the streams does is what its operations do. -/
theorem onSite_bind {β : Type} (x : Program.Prog Site α) (f : α → Program.Prog Site β) :
    (onSite (x >>= f) : Work Data β) = onSite x >>= fun a => onSite (f a) := by
  funext w
  change onSite _ w = EStateM.bind (onSite x) _ w
  unfold EStateM.bind onSite
  cases hx : x w.site with
  | mk result s =>
    cases result with
    | some a => rw [Program.bind_of_returns hx]
    | none => rw [Program.bind_of_cut hx]

theorem alike_ackAndRemove (c : Consumer) (entry : ℕ) :
    Alike (Unheard around before : Shift Data → Shift Data → Prop) (onSite (c.ackAndRemove around entry))
      (onSite (c.ackAndRemove (deaf around) entry)) := by
  have hack := plain_update c.streamName (fun _ => ()) (fun _ => Stream.xack entry) fun _ => rfl
  have hdel := plain_update c.streamName (fun _ => ()) (fun _ => Stream.xdel entry) fun _ => rfl
  unfold Consumer.ackAndRemove
  rw [onSite_bind, onSite_bind]
  exact (alike_onSite hack).bind fun _ => alike_onSite hdel

theorem plain_look (g : Site → α) (hg : ∀ s, g (quiet s) = g s) : Plain fun s => (g s, s) :=
  ⟨fun _ => rfl, fun _ => rfl, fun s => by dsimp only; rw [hg]⟩

theorem alike_giveUp (c : Consumer) (entry : ℕ) :
    Alike (Unheard around before : Shift Data → Shift Data → Prop) (onSite (c.giveUp around entry))
      (onSite (c.giveUp (deaf around) entry)) := by
  unfold Consumer.giveUp
  rw [onSite_bind, onSite_bind]
  refine (alike_onSite (plain_look _ fun s => ?_)).bind fun fields => ?_
  · cases c.streamName <;> rfl
  rw [onSite_bind, onSite_bind]
  refine Alike.bind ?_ fun _ => alike_ackAndRemove c entry
  unfold Consumer.recordGiveUp
  split
  next => exact alike_onSite ⟨fun _ => rfl, fun _ => rfl, fun _ => rfl⟩
  next => exact fun w v h => ⟨rfl, h⟩

/-- **An operation of a handler**, deaf or not. -/
theorem alike_attempt {f : Shift Data → α × Shift Data}
    (hf : ∀ w v, Unheard around before w v →
      (f w).1 = (f v).1 ∧ Unheard around before (f w).2 (f v).2) :
    Alike (Unheard around before) (attempt around mishaps f) (attempt (deaf around) mishaps f) := by
  intro w v h
  have hfound := h.meanwhile
  have hclock : v.site.clock = w.site.clock := by rw [h.site]; rfl
  have hdies : (deaf around).diesAt = around.diesAt := rfl
  unfold attempt
  dsimp only
  rw [hdies, hclock]
  by_cases hat : around.diesAt = some w.site.clock
  · simp only [hat, if_true]
    exact ⟨trivial, hfound⟩
  · simp only [hat, if_false]
    by_cases hcrashes : mishaps.crashes w.site.clock = true
    · simp only [hcrashes, if_true]
      exact ⟨trivial, hfound⟩
    · simp only [hcrashes]
      exact hf _ _ hfound

theorem alike_look (a : Shift Data → α)
    (ha : ∀ w v, Unheard around before w v → a w = a v) :
    Alike (Unheard around before) (attempt around mishaps fun w => (a w, w))
      (attempt (deaf around) mishaps fun w => (a w, w)) :=
  alike_attempt fun w v h => ⟨ha w v h, h⟩

theorem alike_saveEach (results : List (Pipeline.StageResult Data)) :
    Alike (Unheard around before) (saveEach around mishaps name job results)
      (saveEach (deaf around) mishaps name job results) := by
  induction results with
  | nil => exact alike_pure _
  | cons r results ih =>
    refine Alike.bind (alike_attempt fun w v h => ⟨rfl, ?_⟩) fun _ => ih
    refine ⟨h.site, ?_, h.interrupted, h.flag, h.begun⟩
    unfold Shift.save
    dsimp only
    rw [h.stages]

/-- The loop of `run` that never stops. -/
theorem alike_runEntries (entries : List (Pipeline.Entry Job Data)) (context : Context Job Data) :
    Alike (Unheard around before) (runEntries around mishaps name job (fun _ => false) entries context)
      (runEntries (deaf around) mishaps name job (fun _ => false) entries context) := by
  induction entries generalizing context with
  | nil => exact alike_pure _
  | cons entry entries ih =>
    have hbegin : ∀ w v, Unheard around before w v →
        Unheard around before (Shift.begin name job entry w) (Shift.begin name job entry v) := by
      intro w v h
      obtain ⟨since, hv, hw⟩ := h.begun
      have hclock : v.site.clock = w.site.clock := by rw [h.site]; rfl
      have hstopping : v.site.stopping = false := by rw [h.site]; rfl
      refine ⟨h.site, h.stages, h.interrupted, h.flag,
        since ++ [⟨name, job, entry.members.map Pipeline.PipelineStage.name, w.site.clock, false⟩],
        ?_, ?_⟩
      · unfold Shift.begin
        dsimp only
        rw [hv, hclock, hstopping, List.append_assoc]
      · unfold Shift.begin
        dsimp only
        rw [hw, h.flag, List.map_append, List.append_assoc]
        rfl
    refine Alike.bind (f := fun stop => _) (g := fun stop => _)
      (fun w v h => ⟨rfl, h⟩ : Alike (Unheard around before) (look fun _ => false) (look fun _ => false))
      fun stop => alike_ite (alike_pure _) ?_
    refine (alike_modify hbegin).bind fun _ => (alike_look _ fun _ _ _ => rfl).bind fun _ => ?_
    refine (alike_look _ fun _ _ _ => rfl).bind fun result => ?_
    cases result with
    | error e => exact alike_pure _
    | ok results => exact (alike_saveEach results).bind fun _ => ih _

theorem alike_run (alreadyDone : Completed Data) :
    Alike (Unheard around before) (run around mishaps pipes name job (fun _ => false) alreadyDone)
      (run (deaf around) mishaps pipes name job (fun _ => false) alreadyDone) := by
  refine alike_ite ((alike_pure _).bind fun _ => alike_runEntries _ _) ?_
  exact (alike_look _ fun _ _ _ => rfl).bind fun _ => alike_runEntries _ _

theorem alike_handle :
    Alike (Unheard around before) (handle around mishaps pipes name entry job fun _ => false)
      (handle (deaf around) mishaps pipes name entry job fun _ => false) := by
  refine (alike_look _ fun w v h => by rw [h.stages]).bind fun alreadyDone =>
    (alike_run alreadyDone).bind fun r => ?_
  obtain ⟨outcome, context⟩ := r
  have hrecord : Alike (Unheard around before)
      (do attempt around mishaps fun w => ((), w); return true : Work Data Bool)
      (do attempt (deaf around) mishaps fun w => ((), w); return true) :=
    (alike_look _ fun _ _ _ => rfl).bind fun _ => alike_pure _
  cases outcome with
  | completed => exact hrecord
  | raised e => exact hrecord
  | interrupted =>
    refine (alike_modify fun w v h => ?_).bind fun _ => alike_pure _
    refine ⟨h.site, h.stages, ?_, h.flag, h.begun⟩
    dsimp only
    rw [h.interrupted]

theorem alike_processEntry (c : Consumer) (entry : ℕ) (fields : Option JobId) :
    Alike (Unheard around before) (processEntry around mishaps pipes c entry fields fun _ => false)
      (processEntry (deaf around) mishaps pipes c entry fields fun _ => false) := by
  cases fields with
  | none => exact alike_ackAndRemove c entry
  | some job =>
    refine Alike.bind (alike_handle.tryCatch fun e => alike_ite (alike_pure _) (alike_throw e))
      fun terminal => alike_ite (alike_ackAndRemove c entry) (alike_pure _)

theorem alike_reclaimOne (c : Consumer) (d : Delivery) :
    Alike (Unheard around before) (reclaimOne around mishaps pipes c d)
      (reclaimOne (deaf around) mishaps pipes c d) := by
  refine alike_ite (alike_giveUp c d.id) (Alike.bind (alike_onSite ?_) fun found => ?_)
  · refine plain_update c.streamName _
      (fun now => Stream.xclaim c.consumerName c.reclaimMinIdleSeconds now d.id) fun s => ?_
    cases c.streamName <;> rfl
  · cases found with
    | none => exact alike_pure _
    | some fields => exact alike_processEntry c d.id fields

theorem alike_reclaimStuckJobs (c : Consumer) :
    Alike (Unheard around before) (reclaimStuckJobs around mishaps pipes c)
      (reclaimStuckJobs (deaf around) mishaps pipes c) := by
  have heach : ∀ rows, Alike (Unheard around before) (reclaimEach around mishaps pipes c rows)
      (reclaimEach (deaf around) mishaps pipes c rows) := by
    intro rows
    induction rows with
    | nil => exact alike_pure _
    | cons d rows ih => exact (alike_reclaimOne c d).bind fun _ => ih
  refine (alike_onSite (plain_look _ fun s => ?_)).bind heach
  cases c.streamName <;> rfl

/-- **The start-up goes the same way whether or not anybody signals.** -/
theorem alike_startUp (sched : Scheduler) :
    Alike (Unheard around before) (startUp around mishaps pipes sched)
      (startUp (deaf around) mishaps pipes sched) :=
  (alike_reclaimStuckJobs sched.analyses).bind fun _ => alike_reclaimStuckJobs sched.songsPrep

end Alike

/-! ## The life of the worker -/

/-- The pipeline entries a start-up begins, had nobody signalled. -/
def reclaimed (pipes : Pipelines Job Data) (consumerName : ℕ) (around : Surroundings)
    (mishaps : Mishaps) (w : Shift Data) : List Begun :=
  (final (startUp (deaf around) mishaps pipes (.ofConsumer consumerName) w.starting)).begun.drop
    w.begun.length

/-- No entry has been begun after the signal. -/
def Running.Honours (r : Running Data) : Prop := ∀ b ∈ r.shift.begun, b.stopping = false

/-- The signal does not arrive while the start-up has an entry left to begin. -/
def HeardInTime (pipes : Pipelines Job Data) (r : Running Data) : WorkAction → Prop
  | .start consumerName around mishaps =>
      ∀ b ∈ reclaimed pipes consumerName around mishaps r.shift,
        ∀ k < b.clock, Event.signal ∉ around.events k
  | _ => True

/-- So it is when the signal does not arrive during the start-up at all. -/
theorem heardInTime_of_silent {r : Running Data} {consumerName : ℕ}
    (hsilent : ∀ k, Event.signal ∉ around.events k) :
    HeardInTime pipes r (.start consumerName around mishaps) :=
  fun _ _ k _ => hsilent k

theorem shift_ran (sched : Scheduler) (x : EStateM.Result Exit (Shift Data) Unit) :
    (Running.ran sched x).shift = final x := by
  cases x <;> rfl

/-- **A start-up** begins what it would have begun without the signals. -/
theorem begun_startUp (consumerName : ℕ) (w : Shift Data) :
    (final (startUp around mishaps pipes (.ofConsumer consumerName) w.starting)).begun
      = w.begun ++ (reclaimed pipes consumerName around mishaps w).map (Begun.hearing around) := by
  have hstart : Unheard around w.begun w.starting w.starting :=
    ⟨rfl, rfl, rfl, rfl, [], (List.append_nil _).symm, (List.append_nil _).symm⟩
  obtain ⟨since, hdeaf, hbegun⟩ := ((@alike_startUp _ _ _ mishaps pipes _
    (.ofConsumer consumerName)).final hstart).begun
  unfold reclaimed
  rw [hbegun, hdeaf, List.drop_left]

/-- The entries of interrupted jobs are left as they should be. -/
def Running.Leaves (r : Running Data) : Prop := ∀ i ∈ r.shift.interrupted, r.shift.Left i

variable {r r' : Running Data} {a : WorkAction}

/-- Nobody else touches what is left. -/
theorem Shift.Left.grows {i : Interruption Data} {s : Site} (h : w.Left i)
    (hgrows : Grows w.site s) : Shift.Left { w with site := s } i :=
  ⟨h.1.grows hgrows, h.2.1, hgrows.stopping h.2.2⟩

/-- A process that goes round its loop has interrupted nothing yet. -/
theorem Running.Leaves.interrupted (h : r.Leaves) (hgoes : r.shift.site.stopping = false) :
    r.shift.interrupted = [] := by
  refine List.eq_nil_iff_forall_not_mem.mpr fun i hi => ?_
  exact absurd ((h i hi).2.2.symm.trans hgoes) nofun

/-- **One step**: what is left stays so, and the signal is honoured if and only if a start-up
hears it in time. -/
theorem honours_step_iff (hleft : r.Leaves) (hstep : workStep pipes r a = some r') :
    r'.Leaves ∧ (r'.Honours ↔ r.Honours ∧ HeardInTime pipes r a) := by
  cases a with
  | start consumerName around mishaps =>
    change (if r.scheduler = none then some (Running.ran (.ofConsumer consumerName)
      (startUp around mishaps pipes (.ofConsumer consumerName) r.shift.starting)) else none)
        = some r' at hstep
    split at hstep
    next =>
      cases hstep
      unfold Running.Leaves Running.Honours HeardInTime
      rw [shift_ran, begun_startUp]
      refine ⟨?_, ?_⟩
      · have hstart := @preserves_startUp _ _ around mishaps pipes (.ofConsumer consumerName)
        exact forall_interrupted_of_nil (hstart.final (rfl : r.shift.starting.interrupted = []))
      · rw [List.forall_mem_append, List.forall_mem_map]
        exact and_congr_right fun _ => forall₂_congr fun b _ => hears_eq_false
    next => cases hstep
  | iterate around mishaps =>
    change r.scheduler.bind _ = some r' at hstep
    obtain ⟨sched, -, hstep⟩ := Option.bind_eq_some_iff.mp hstep
    split at hstep
    next => cases hstep
    next hgoes =>
      cases hstep
      have hnone : r.shift.again.interrupted = [] :=
        hleft.interrupted (Bool.eq_false_iff.mpr hgoes)
      have hpre : Unasked r.shift.begun r.shift.again.begun :=
        ⟨[], (List.append_nil _).symm, fun _ hb => absurd hb List.not_mem_nil⟩
      have hends : Unasked r.shift.begun
          (final (iterate around mishaps pipes sched r.shift.again)).begun ∧
          ∀ i ∈ (final (iterate around mishaps pipes sched r.shift.again)).interrupted,
            (final (iterate around mishaps pipes sched r.shift.again)).Left i := by
        have htriple := @triple_iterate_unasked _ _ around mishaps pipes sched r.shift.begun
        cases hrun : iterate around mishaps pipes sched r.shift.again with
        | ok _ w => exact htriple.of_ok ⟨hpre, hnone⟩ hrun
        | error _ w => exact htriple.of_error ⟨hpre, hnone⟩ hrun
      unfold Running.Leaves Running.Honours
      rw [shift_ran]
      obtain ⟨⟨since, hsince, hunasked⟩, hends⟩ := hends
      refine ⟨hends, ?_⟩
      rw [hsince, List.forall_mem_append]
      exact and_congr_right fun _ => iff_of_true hunasked trivial
  | leave =>
    change (if r.scheduler.isSome ∧ r.shift.site.stopping then
      some { r with scheduler := none } else none) = some r' at hstep
    split at hstep
    next =>
      cases hstep
      exact ⟨hleft, (and_iff_left trivial).symm⟩
    next => cases hstep
  | kill =>
    cases hstep
    exact ⟨hleft, (and_iff_left trivial).symm⟩
  | outside events =>
    cases hstep
    have hst := Site.happen_meanwhile r.shift.site events
    refine ⟨fun i hi => (hleft i hi).grows ⟨fun name d hd => ?_, hst.stopping⟩,
      (and_iff_left trivial).symm⟩
    rw [hst.pending]
    exact hd

/-- **A run** honours the signal if and only if every start-up hears it in time. -/
theorem honours_run_iff {actions : List WorkAction} (hleft : r.Leaves)
    (hrun : exec (workStep pipes) r actions = some r') :
    r'.Leaves ∧ (r'.Honours ↔ r.Honours ∧ Meets (workStep pipes) (HeardInTime pipes) r actions) := by
  induction actions generalizing r with
  | nil =>
    obtain rfl : r = r' := Option.some.inj hrun
    exact ⟨hleft, (and_iff_left trivial).symm⟩
  | cons a actions ih =>
    obtain ⟨u, hu, hrest⟩ := exec_cons.mp hrun
    obtain ⟨hleft', hstep⟩ := honours_step_iff hleft hu
    obtain ⟨hends, hrun'⟩ := ih hleft' hrest
    refine ⟨hends, ?_⟩
    rw [hrun', hstep, and_assoc]
    refine and_congr_right fun _ => ⟨fun h u' hu' => ?_, fun h => h u hu⟩
    obtain rfl : u = u' := Option.some.inj (hu.symm.trans hu')
    exact h

/-- **Graceful stop.**  After any run of the worker, over any number of starts:

* no pipeline entry has been begun after the signal if and only if no signal arrives while a
  start-up has an entry left to begin;
* the entry of an interrupted job is pending still, and what had been finished is saved. -/
theorem stop_honoured (pipes : Pipelines Job Data) (actions : List WorkAction) (r : Running Data)
    (hrun : exec (workStep pipes) {} actions = some r) :
    (r.Honours ↔ Meets (workStep pipes) (HeardInTime pipes) {} actions) ∧
      ∀ i ∈ r.shift.interrupted, (∃ d ∈ (r.shift.site.stream i.stream).pending, d.id = i.entry) ∧
        r.shift.stages i.stream i.job = i.completed := by
  have hstart : (({} : Running Data)).Leaves := fun _ hi => absurd hi List.not_mem_nil
  obtain ⟨hleft, hhonours⟩ := honours_run_iff hstart hrun
  refine ⟨hhonours.trans (and_iff_right fun _ hb => absurd hb List.not_mem_nil), fun i hi => ?_⟩
  exact ⟨(hleft i hi).1, (hleft i hi).2.1⟩

/-- Two stages, one after the other. -/
def twoStages : Pipelines Unit Unit where
  stages _ := [.stage { name := "separate", produce := fun _ => (1, none) },
    .stage { name := "align", produce := fun _ => (1, none) }]
  mode _ _ := none
  job _ _ := ()

/-- The signal arrives while the first stage runs. -/
def stopsInLoop : List WorkAction :=
  [.outside [.publish .analysesRun (some 5)], .start 0 {} {},
    .iterate { events := fun n => if n = 4 then [.signal] else [] } {}]

/-- The second stage is not begun, and the entry is pending. -/
theorem stop_honoured_stopsInLoop :
    ∃ r, exec (workStep twoStages) {} stopsInLoop = some r ∧ r.Honours ∧
      r.shift.begun.length = 1 ∧ r.shift.interrupted.length = 1 ∧
      ∀ i ∈ r.shift.interrupted, (∃ d ∈ (r.shift.site.stream i.stream).pending, d.id = i.entry) ∧
        r.shift.stages i.stream i.job = i.completed := by
  have hrun : (exec (workStep twoStages) {} stopsInLoop).map (fun r =>
      (r.shift.begun.length, r.shift.interrupted.length)) = some (1, 1) := by
    decide +kernel
  obtain ⟨r, hr, hlengths⟩ := Option.map_eq_some_iff.mp hrun
  obtain ⟨hhonours, hleft⟩ := stop_honoured twoStages stopsInLoop r hr
  refine ⟨r, hr, hhonours.mpr ?_, congrArg Prod.fst hlengths, congrArg Prod.snd hlengths, hleft⟩
  intro u _
  refine ⟨trivial, fun u' _ => ⟨heardInTime_of_silent fun _ => List.not_mem_nil, fun v _ => ?_⟩⟩
  exact ⟨trivial, trivial⟩

/-- The signal arrives while the start-up reclaims what another process has left behind. -/
def stopsInReclaim : List WorkAction :=
  [.outside [.publish .analysesRun (some 5)], .start 0 {} {}, .iterate { diesAt := some 1 } {},
    .outside [.sleep pendingClaimMinIdle],
    .start 1 { events := fun n => if n = 5 then [.signal] else [] } {}]

/-- The second stage is begun after the signal. -/
theorem not_forall_honours :
    ¬ ∀ (pipes : Pipelines Unit Unit) (actions : List WorkAction) (r : Running Unit),
      exec (workStep pipes) {} actions = some r → r.Honours := by
  intro h
  have hrun : (exec (workStep twoStages) {} stopsInReclaim).map (fun r =>
      r.shift.begun.map Begun.stopping) = some [false, true] := by
    decide +kernel
  obtain ⟨r, hr, hbegun⟩ := Option.map_eq_some_iff.mp hrun
  have hmem : true ∈ r.shift.begun.map Begun.stopping := by
    rw [hbegun]
    decide
  obtain ⟨b, hb, hstopping⟩ := List.mem_map.mp hmem
  exact absurd ((h twoStages stopsInReclaim r hr b hb).symm.trans hstopping) nofun

end Shutdown

end VocalCoach
