/-
# Acknowledged outcomes

A worker that has recorded an outcome removes the entry next.  If nothing comes in between
(`Acknowledges`), what is left in the streams stands for jobs that are yet to be finished:
the tickets of the queue say so of the analyses, and `PrepsSound` of the songs, each of
which has one request or one entry at most that is to see to it.

So nothing that is finished is handed over or given up on, and the outcomes stay
(`outcomes_kept`).
-/
import VocalCoach.DeadSongs
import VocalCoach.TicketsSound
import Mathlib.Data.List.Perm.Subperm

namespace VocalCoach

open RedisStream Machine

variable {cfg : Config} {w w' : World} {a : Action} {e : Effect}

/-! ## Songs that somebody is to see to -/

/-- The entries whose songs the worker has yet to settle. -/
def World.unsettledEntries (w : World) : List (Entry SongId) :=
  w.prep.entries.filter fun x => w.worker.settling ≠ some x.id

/-- The songs of the requests that are to see to one, and of those entries. -/
def World.toPrepare (w : World) : List SongId :=
  w.calls.filterMap Call.prepares ++ w.unsettledEntries.map Entry.fields

/-- No request fails with a ticket in hand, nor the worker; and it neither crashes nor raises
between recording the outcome of a song and removing the entry. -/
def Acknowledges (w : World) (a : Action) : Prop :=
  KeepsTickets w a ∧ (a = .crash ∨ a = .raise → w.worker.settling = none)

instance (w : World) (a : Action) : Decidable (Acknowledges w a) :=
  inferInstanceAs (Decidable (_ ∧ _))

/-- How a song comes to be seen to: it is new, or failed and is reset. -/
inductive Begins (cfg : Config) (w w' : World) (a : Action) (songId : SongId) : Prop
  | created (hid : songId = w.nextUuid) (hdrawn : w.nextUuid < w'.nextUuid)
  | reset {t} (ht : t ∈ w.db.songs) (hid : t.id = songId) (hfailed : t.prepStatus = .failed)
      (hs : stepStatement cfg w a = some (.retryPrep songId))

/-! ## What a step does to them -/

/-- The entries are there, and those that were settled are settled still. -/
theorem unsettledEntries_sublist (hentries : (w.apply e).prep.entries = w.prep.entries)
    (hsettling : w.worker.settling = none ∨ w.worker.settling = e.worker.settling) :
    (w.apply e).unsettledEntries.Sublist w.unsettledEntries := by
  have hworker : (w.apply e).worker = e.worker := rfl
  rw [World.unsettledEntries, World.unsettledEntries, hentries, hworker]
  refine List.monotone_filter_right _ fun x hx => ?_
  rcases hsettling with hnone | hsame
  · simp [hnone]
  · rwa [hsame]

theorem toPrepare_sublist (hcalls : e.calls = w.calls)
    (h : (w.apply e).unsettledEntries.Sublist w.unsettledEntries) :
    (w.apply e).toPrepare.Subperm w.toPrepare := by
  have hcalls' : (w.apply e).calls = w.calls := hcalls
  rw [World.toPrepare, World.toPrepare, hcalls']
  exact ((List.Sublist.refl _).append (h.map _)).subperm

/-- The worker lets go of songs only as it settles them, or gives up. -/
theorem WorkerMove.toPrepare {worker : Worker} (hworker : w.worker = worker)
    (h : WorkerMove cfg w a worker e) (hack : a = .raise → worker.settling = none) :
    (w.apply e).toPrepare.Subperm w.toPrepare := by
  refine toPrepare_sublist h.calls.1 ?_
  cases h
  case claimPrep =>
    exact unsettledEntries_sublist rfl (Or.inl (by rw [hworker]; rfl))
  case reclaimPrep | reclaimPrepGone =>
    exact unsettledEntries_sublist (Stream.xclaim_entries _ _ _ _ _).1
      (Or.inl (by rw [hworker]; rfl))
  case prepDel entry =>
    -- what it deletes was settled before
    have hsettling : w.worker.settling = some entry := by rw [hworker]; rfl
    have hnone : (w.apply { w.keep with
        prep := some (.xdel entry), worker := .idle }).worker.settling = none := rfl
    rw [World.unsettledEntries, World.unsettledEntries, hnone, hsettling]
    have hentries : (w.apply { w.keep with
        prep := some (.xdel entry), worker := .idle }).prep.entries =
          w.prep.entries.filter fun x => x.id ≠ entry := rfl
    rw [hentries, List.filter_filter]
    refine List.monotone_filter_right _ fun x hx => ?_
    obtain ⟨-, hne⟩ := Bool.and_eq_true_iff.mp hx
    exact decide_eq_true fun h => of_decide_eq_true hne (Option.some.inj h).symm
  case raised =>
    exact unsettledEntries_sublist rfl (Or.inl (by rw [hworker]; exact hack rfl))
  all_goals
    exact unsettledEntries_sublist rfl (by rw [hworker]; first | exact Or.inl rfl | exact Or.inr rfl)

/-- The song of a request in front of all others. -/
theorem toPrepare_erase {c : Call} (hc : c ∈ w.calls) :
    w.toPrepare.Perm (c.prepares.toList ++ ((w.calls.erase c).filterMap Call.prepares ++
      w.unsettledEntries.map Entry.fields)) := by
  have hperm := ((List.perm_cons_erase hc).filterMap Call.prepares).append_right
    (w.unsettledEntries.map Entry.fields)
  refine hperm.trans (List.Perm.of_eq ?_)
  cases hprepares : c.prepares <;> simp [hprepares]

/-- A request that appends leaves its song to the entry. -/
theorem toPrepare_xadd (hold : w.SettlesOld) (songId : SongId) {calls : List Call} :
    (w.apply { w.keep with prep := some (.xadd songId), calls }).toPrepare =
      calls.filterMap Call.prepares ++ (w.unsettledEntries.map Entry.fields ++ [songId]) := by
  have hnew : w.worker.settling ≠ some (w.prep.lastId + 1) :=
    fun h => absurd (hold _ h) (Nat.not_succ_le_self _)
  have hone : [⟨w.prep.lastId + 1, songId⟩].filter
      (fun x : Entry SongId => decide (w.worker.settling ≠ some x.id)) =
        [⟨w.prep.lastId + 1, songId⟩] :=
    List.filter_cons_of_pos (decide_eq_true hnew)
  show calls.filterMap Call.prepares ++ List.map Entry.fields ((w.prep.entries ++
    [(⟨w.prep.lastId + 1, songId⟩ : Entry SongId)]).filter
      fun x => decide (w.worker.settling ≠ some x.id)) = _
  rw [List.filter_append, hone, List.map_append]
  rfl

theorem CallMove.toPrepare {c : Call} (hc : c ∈ w.calls)
    (h : CallMove cfg w (w.calls.erase c) c e) (hold : w.SettlesOld)
    (hreset : ∀ songId, c ≠ .prepRetryUpdate songId) :
    (w.apply e).toPrepare.Subperm w.toPrepare := by
  have hfront := (toPrepare_erase hc).symm.subperm
  have happend : ∀ songId, ((w.calls.erase c).filterMap Call.prepares ++
      (w.unsettledEntries.map Entry.fields ++ [songId])).Subperm ([songId] ++
        ((w.calls.erase c).filterMap Call.prepares ++ w.unsettledEntries.map Entry.fields)) := by
    intro songId
    rw [← List.append_assoc]
    exact List.perm_append_comm.subperm
  cases h
  case ended => exact (List.sublist_append_right _ _).subperm.trans hfront
  case songPublish songId =>
    rw [toPrepare_xadd hold]
    exact (happend songId).trans hfront
  case prepRetryPublish songId =>
    rw [toPrepare_xadd hold]
    exact (happend songId).trans hfront
  case songRollBack => exact (List.sublist_append_right _ _).subperm.trans hfront
  case prepRetryUpdate => exact absurd rfl (hreset _)
  case prepRetryMissed => exact absurd rfl (hreset _)
  all_goals exact hfront

/-- `RetryPrep` resets a failed song, or nothing. -/
theorem toPrepare_reset {songId : SongId}
    (h : plan cfg w (.advance (.prepRetryUpdate songId)) = some e) :
    (w.apply e).toPrepare.Subperm w.toPrepare ∨
      ∃ songId', Begins cfg w (w.apply e) (.advance (.prepRetryUpdate songId)) songId' ∧
        (w.apply e).toPrepare.Subperm (songId' :: w.toPrepare) := by
  have hs := stepStatement_eq h
  obtain ⟨hc, h⟩ := Option.ite_none_right_eq_some.mp h
  cases h
  have hfront := (toPrepare_erase hc).symm.subperm
  simp only [Call.plan] at hs ⊢
  split_ifs with hany
  · obtain ⟨t, ht, hfailed⟩ := List.any_eq_true.mp hany
    have hfailed : t.id = songId ∧ t.prepStatus = .failed := by simpa using hfailed
    exact Or.inr ⟨songId, .reset ht hfailed.1 hfailed.2 hs, (List.subperm_cons _).mpr hfront⟩
  · exact Or.inl hfront

theorem RequestMove.toPrepare {r : Request} (h : RequestMove cfg w r e) :
    (w.apply e).toPrepare.Subperm w.toPrepare ∨
      ∃ songId, Begins cfg w (w.apply e) (.request r) songId ∧
        (w.apply e).toPrepare.Subperm (songId :: w.toPrepare) := by
  cases h
  case addSong =>
    exact Or.inr ⟨w.nextUuid, .created rfl (Nat.lt_succ_self _), List.Subperm.refl _⟩
  all_goals exact Or.inl (List.Subperm.refl _)

/-- **Songs to see to** are those of before and one that a request begins with. -/
theorem step_toPrepare (hold : w.SettlesOld) (hack : Acknowledges w a)
    (hstep : step cfg w a = some w') :
    w'.toPrepare.Subperm w.toPrepare ∨
      ∃ songId, Begins cfg w w' a songId ∧ w'.toPrepare.Subperm (songId :: w.toPrepare) := by
  rcases step_cases hstep with hlife | ⟨e, hplan, rfl⟩
  · have hsame := lifecycle_untouched hlife
    have hsettling : w'.worker = w.worker ∨ w.worker.settling = none := by
      cases a <;> simp only [lifecycle, reduceCtorEq] at hlife
      case sleep =>
        cases hlife
        exact Or.inl rfl
      case start =>
        split_ifs at hlife with hdown
        rw [hdown]
        exact Or.inr rfl
      case crash => exact Or.inr (hack.2 (Or.inl rfl))
      case enterLoop =>
        split_ifs at hlife
        cases hlife
        exact Or.inl rfl
    refine Or.inl (List.Sublist.subperm ?_)
    rw [World.toPrepare, World.toPrepare, hsame.calls]
    refine (List.Sublist.refl _).append (List.Sublist.map _ ?_)
    rw [World.unsettledEntries, World.unsettledEntries, hsame.prep]
    refine List.monotone_filter_right _ fun x hx => ?_
    rcases hsettling with hworker | hnone
    · rwa [hworker] at hx
    · simp [hnone]
  · by_cases hapi : a.ofApi
    · cases plan_apiMove hplan hapi with
      | request hmove => exact hmove.toPrepare
      | @advance c _ hc hmove =>
        by_cases hreset : ∃ songId, c = .prepRetryUpdate songId
        · obtain ⟨songId, rfl⟩ := hreset
          exact toPrepare_reset hplan
        · exact Or.inl (hmove.toPrepare hc hold fun songId h => hreset ⟨songId, h⟩)
      | @abort c hc =>
        have hfront := (toPrepare_erase hc).symm.subperm
        refine Or.inl (List.Subperm.trans ?_ hfront)
        cases c <;> exact (List.sublist_append_right _ _).subperm
    · have hmove := plan_move hplan (by simpa using hapi)
      exact Or.inl (hmove.toPrepare rfl fun h => hack.2 (Or.inr h))

/-! ## The invariant -/

/-- Each song is seen to once, and none that is settled is. -/
structure PrepsSound (w : World) : Prop where
  sound : w.Sound
  prep : PrepSound w
  old : w.SettlesOld
  once : w.toPrepare.Nodup
  drawn : ∀ songId ∈ w.toPrepare, songId < w.nextUuid
  unsettled : ∀ songId ∈ w.toPrepare, ∀ t ∈ w.db.songs, t.id = songId → ¬ t.settled

theorem PrepsSound.empty : PrepsSound {} where
  sound := World.Sound.empty
  prep := PrepSound.empty
  old := by rintro entry ⟨⟩
  once := List.nodup_nil
  drawn := by rintro songId ⟨⟩
  unsettled := by rintro songId ⟨⟩

theorem nodup_of_subperm {α : Type*} {l₁ l₂ : List α} (h : l₁.Subperm l₂) (hl : l₂.Nodup) :
    l₁.Nodup := by
  obtain ⟨l, hperm, hsub⟩ := h
  exact hperm.nodup_iff.mp (hl.sublist hsub)

/-- Nobody sees to a song already when a request begins with it. -/
theorem PrepsSound.notMem_of_begins (h : PrepsSound w) {songId : SongId}
    (hbegins : Begins cfg w w' a songId) : songId ∉ w.toPrepare := by
  intro hmem
  cases hbegins with
  | created hid => exact absurd (h.drawn songId hmem) (hid ▸ Nat.lt_irrefl _)
  | reset ht hid hfailed =>
    exact h.unsettled songId hmem _ ht hid (Song.settled_iff.mpr (Or.inr hfailed))

/-- **The entry of a song that is settled was the last to see to it.** -/
theorem PrepsSound.notMem_of_recording (h : PrepsSound w) (hstep : step cfg w .work = some w')
    {songId : SongId} (hrecording : w.worker.recording = some songId) :
    songId ∉ w'.toPrepare := by
  rcases step_cases hstep with hlife | ⟨e, hplan, rfl⟩
  · cases hlife
  have hmove := plan_move hplan rfl
  obtain ⟨entry, hjob, hbefore, hafter, hentries⟩ : ∃ entry,
      w.worker.prepJob = some ⟨entry, songId⟩ ∧ w.worker.settling = none ∧
        e.worker.settling = some entry ∧ (w.apply e).prep.entries = w.prep.entries := by
    generalize hworker : w.worker = worker at hmove hrecording
    cases worker <;> cases hrecording <;> cases hmove <;> exact ⟨_, rfl, rfl, rfl, rfl⟩
  have honce := h.once
  rw [World.toPrepare, List.nodup_append] at honce
  have hmem : ⟨entry, songId⟩ ∈ w.unsettledEntries :=
    List.mem_filter.mpr ⟨(h.prep.handled _ hjob).1, by simp [hbefore]⟩
  intro hsong
  have hcalls : (w.apply e).calls = w.calls := hmove.calls.1
  rw [World.toPrepare, hcalls] at hsong
  rcases List.mem_append.mp hsong with hcall | hentry
  · exact honce.2.2 _ hcall _ (List.mem_map_of_mem hmem) rfl
  · obtain ⟨y, hy, hfields⟩ := List.mem_map.mp hentry
    obtain ⟨hy, hne⟩ := List.mem_filter.mp hy
    rw [hentries] at hy
    have hymem : y ∈ w.unsettledEntries := List.mem_filter.mpr ⟨hy, by simp [hbefore]⟩
    obtain rfl := List.inj_on_of_nodup_map honce.2.1 hymem hmem hfields
    have hsettling : (w.apply e).worker.settling = some entry := hafter
    simp [hsettling] at hne

theorem PrepsSound.step (h : PrepsSound w) (hack : Acknowledges w a)
    (hstep : step cfg w a = some w') : PrepsSound w' := by
  have hnext := step_nextUuid hstep
  have hsongs := step_toPrepare h.old hack hstep
  refine ⟨h.sound.step hstep, h.prep.step hstep, h.old.step h.prep hstep, ?_, ?_, ?_⟩
  · rcases hsongs with hsub | ⟨songId, hbegins, hsub⟩
    · exact nodup_of_subperm hsub h.once
    · exact nodup_of_subperm hsub (List.nodup_cons.mpr ⟨h.notMem_of_begins hbegins, h.once⟩)
  · intro songId hmem
    rcases hsongs with hsub | ⟨begun, hbegins, hsub⟩
    · exact (h.drawn songId (hsub.subset hmem)).trans_le hnext
    · rcases List.mem_cons.mp (hsub.subset hmem) with rfl | hold
      · cases hbegins with
        | created hid hdrawn => exact hid ▸ hdrawn
        | reset ht hid => exact hid ▸ (h.sound.freshSongs _ ht).trans_le hnext
      · exact (h.drawn songId hold).trans_le hnext
  · intro songId hmem t ht hid hsettled
    rcases settled_of_step hstep ht hsettled with ⟨b, hb, hbid, hbs⟩ | ⟨rfl, hrecording, -⟩
    · have hbegun : songId ∈ w.toPrepare ∨ Begins cfg w w' a songId := by
        rcases hsongs with hsub | ⟨begun, hbegins, hsub⟩
        · exact Or.inl (hsub.subset hmem)
        · rcases List.mem_cons.mp (hsub.subset hmem) with rfl | hold
          · exact Or.inr hbegins
          · exact Or.inl hold
      rcases hbegun with hold | hbegins
      · exact h.unsettled songId hold b hb (hbid.trans hid) hbs
      · cases hbegins with
        | created hnew =>
          have hlt := h.sound.freshSongs b hb
          rw [hbid, hid, hnew] at hlt
          exact Nat.lt_irrefl _ hlt
        | reset ht₀ hid₀ hfailed hs =>
          -- the row is reset in this very step
          rw [step_db hstep, hs, Option.elim_some] at ht
          rcases mem_run_songs.mp ht with ⟨c, hc, hct⟩ | hins
          · have hcid := onSong_id hct
            obtain rfl := h.sound.eq_of_songId hc ht₀ (hcid.symm.trans (hid.trans hid₀.symm))
            simp only [Statement.onSong, hid₀, hfailed, and_self, if_true, Option.some.injEq] at hct
            rw [← hct] at hsettled
            cases hsettled
          · cases hins
    · rw [hid] at hrecording
      exact h.notMem_of_recording hstep hrecording hmem

/-! ## What the worker is handed -/

/-- An entry of a sound queue is of an analysis that is in it or is being processed. -/
theorem TicketsSound.not_ticketless (h : TicketsSound w) (hretires : w.worker.retires = none)
    {x : Entry AnalysisId} (hx : x ∈ w.run.entries) {r : Analysis} (hr : r ∈ w.db.analyses)
    (hid : r.id = x.fields) : ¬ r.status.ticketless := by
  intro hless
  have hnone := h.settled r hr hless
  have hsent : x ∈ w.sent := by rwa [sent_of_retires hretires]
  have hpos : 0 < w.sent.countP fun y => y.fields = r.id :=
    List.countP_pos_iff.mpr ⟨x, hsent, by simp [hid]⟩
  rw [World.tickets] at hnone
  omega

/-- A worker is handed an entry, or gives up on one, while it has none. -/
theorem idle_of_takes (hstep : step cfg w a = some w')
    (ha : a = .deliver ∨ (∃ entry, a = .reclaimRun entry) ∨ ∃ entry, a = .reclaimPrep entry) :
    w.worker = .idle := by
  rcases step_cases hstep with hlife | ⟨e, hplan, -⟩
  · rcases ha with rfl | ⟨_, rfl⟩ | ⟨_, rfl⟩ <;> cases hlife
  · have hmove := plan_move hplan (by rcases ha with rfl | ⟨_, rfl⟩ | ⟨_, rfl⟩ <;> rfl)
    generalize w.worker = worker at hmove
    rcases ha with rfl | ⟨_, rfl⟩ | ⟨_, rfl⟩ <;> cases hmove <;> rfl

theorem handles_entry {id : AnalysisId} (h : w.handles a = some id) :
    (a = .deliver ∨ (∃ entry, a = .reclaimRun entry) ∨ ∃ entry, a = .reclaimPrep entry) ∧
      ∃ x ∈ w.run.entries, x.fields = id := by
  cases a <;> simp only [World.handles, reduceCtorEq] at h
  case deliver =>
    obtain ⟨x, hx, hfields⟩ := Option.map_eq_some_iff.mp h
    exact ⟨Or.inl rfl, x, (Stream.mem_of_newEntries (List.mem_of_head? hx)).1, hfields⟩
  case reclaimRun entry =>
    split_ifs at h
    exact ⟨Or.inr (Or.inl ⟨entry, rfl⟩), _, Stream.mem_of_xrange h, rfl⟩

theorem givesUp_entry {id : AnalysisId} (h : w.givesUp a = some id) :
    (∃ entry, a = .reclaimRun entry) ∧ ∃ x ∈ w.run.entries, x.fields = id := by
  cases a <;> simp only [World.givesUp, reduceCtorEq] at h
  case reclaimRun entry =>
    split_ifs at h
    exact ⟨⟨entry, rfl⟩, _, Stream.mem_of_xrange h, rfl⟩

theorem givesUpPrep_entry {songId : SongId} (h : w.givesUpPrep a = some songId) :
    (∃ entry, a = .reclaimPrep entry) ∧ ∃ x ∈ w.prep.entries, x.fields = songId := by
  cases a <;> simp only [World.givesUpPrep, reduceCtorEq] at h
  case reclaimPrep entry =>
    split_ifs at h
    exact ⟨⟨entry, rfl⟩, _, Stream.mem_of_xrange h, rfl⟩

/-- **What is acknowledged is not handed over again**, nor given up on. -/
theorem keepsOutcomes_of_sound (hqueue : TicketsSound w) (hpreps : PrepsSound w)
    (hstep : step cfg w a = some w') : KeepsOutcomes w a := by
  refine ⟨fun id hid r hr hrid hfailed => ?_, fun id hid r hr hrid hdone => ?_,
    fun songId hsong t ht htid hready => ?_⟩
  · obtain ⟨htakes, x, hx, hfields⟩ := handles_entry hid
    have hretires : w.worker.retires = none := by rw [idle_of_takes hstep htakes]; rfl
    exact hqueue.not_ticketless hretires hx hr (hrid.trans hfields.symm) (Or.inr (Or.inl hfailed))
  · obtain ⟨htakes, x, hx, hfields⟩ := givesUp_entry hid
    have hretires : w.worker.retires = none := by
      rw [idle_of_takes hstep (Or.inr (Or.inl htakes))]
      rfl
    exact hqueue.not_ticketless hretires hx hr (hrid.trans hfields.symm) (Or.inr (Or.inr hdone))
  · obtain ⟨htakes, x, hx, hfields⟩ := givesUpPrep_entry hsong
    have hsettling : w.worker.settling = none := by
      rw [idle_of_takes hstep (Or.inr (Or.inr htakes))]
      rfl
    have hentry : x ∈ w.unsettledEntries := List.mem_filter.mpr ⟨hx, by simp [hsettling]⟩
    have hmem : x.fields ∈ w.toPrepare := List.mem_append_right _ (List.mem_map_of_mem hentry)
    exact hpreps.unsettled _ hmem t ht (htid.trans hfields.symm)
      (Song.settled_iff.mpr (Or.inl hready))

theorem keepsOutcomes_of_acknowledges {actions : List Action}
    (hmeets : Meets (step cfg) Acknowledges {} actions) :
    Meets (step cfg) KeepsOutcomes {} actions :=
  meets_of_invariant (fun w => TicketsSound w ∧ PrepsSound w)
    (fun _ _ _ h hack hstep => ⟨h.1.step hack.1 hstep, h.2.step hack hstep⟩)
    (fun _ _ _ h _ hstep => keepsOutcomes_of_sound h.1 h.2 hstep)
    ⟨TicketsSound.empty, PrepsSound.empty⟩ hmeets

/-! ## Every run -/

/-- **When terminal outcomes are kept.**  In every run from the empty system in which no
failed analysis is handed to its handler and no finished job is given up on, `done` and
`ready` are for ever and `failed` lasts until the user retries; and so it is in every run
in which what is recorded is acknowledged. -/
theorem outcomes_kept (cfg : Config) :
    (∀ actions, Meets (step cfg) Acknowledges {} actions →
        Meets (step cfg) KeepsOutcomes {} actions) ∧
      ∀ (before after : List Action) (w w' : World),
        Meets (step cfg) KeepsOutcomes {} (before ++ after) →
        exec (step cfg) {} before = some w → exec (step cfg) w after = some w' →
        OutcomesStay after w w' := by
  refine ⟨fun _ => keepsOutcomes_of_acknowledges, ?_⟩
  intro before after w w' hmeets hbefore hafter
  obtain ⟨hmeets₁, hmeets₂⟩ := meets_append hmeets hbefore
  have hinv : OutcomesKept cfg w :=
    invariant (OutcomesKept cfg) (fun s a s' h hcond hs => h.step hcond hs) (OutcomesKept.empty cfg)
      hmeets₁ hbefore
  refine ⟨fun r hr hdone => ?_, fun r hr hfailed hretries => ?_, fun r hr hready => ?_⟩
  · refine outcome_run (P := fun w => w.db.OnlyStatus r.id .done) (Q := fun _ => True) ?_ hinv
      (hinv.sound.fresh r hr) ?_ (fun _ _ => trivial) hmeets₂ hafter
    · intro u a u' hu htaken _ hP hstep
      exact hu.analyses.finished_moved (step_analysesMoved hstep) htaken hP
    · intro b hb hid
      rw [hinv.sound.db.eq_of_id hb hr hid]
      exact hdone
  · refine outcome_run (P := fun w => w.db.OnlyStatus r.id .failed) ?_ hinv
      (hinv.sound.fresh r hr) ?_ hretries hmeets₂ hafter
    · intro u a u' hu htaken hne hP hstep
      exact hu.analyses.failed_moved (step_analysesMoved hstep) htaken hne hP
    · intro b hb hid
      rw [hinv.sound.db.eq_of_id hb hr hid]
      exact hfailed
  · refine outcome_run (P := fun w => ∀ t ∈ w.db.songs, t.id = r.id → t.prepStatus = .ready)
      (Q := fun _ => True) ?_ hinv (hinv.sound.freshSongs r hr) ?_ (fun _ _ => trivial)
      hmeets₂ hafter
    · intro u a u' hu htaken _ hP hstep
      exact hu.songs.finished_moved (step_songsMoved hstep) htaken hP
    · intro t ht hid
      rw [hinv.sound.eq_of_songId ht hr hid]
      exact hready

/-- An analysis that is handled twice, and a run that acknowledges all it records. -/
theorem outcomes_kept_handlesAgain :
    OutcomesStay handlesAgain completedOnce completedTwice ∧
      Meets (step defaultConfig) KeepsOutcomes {} (completesFirstAnalysis ++ [.work, .work]) :=
  have h := outcomes_kept defaultConfig
  ⟨h.2 completesFirstAnalysis handlesAgain completedOnce completedTwice (by decide +kernel)
    (Option.some_get _).symm (Option.some_get _).symm, h.1 _ (by decide +kernel)⟩

/-- The entry of the failed analysis is reclaimed, and its handler marks it processing. -/
theorem not_forall_outcomesStay :
    ¬ ∀ (before after : List Action) (w w' : World),
      exec (step defaultConfig) {} before = some w →
      exec (step defaultConfig) w after = some w' → OutcomesStay after w w' := by
  intro h
  have hruns : ((exec (step defaultConfig) {} failsFirstAnalysis).bind fun w =>
      (exec (step defaultConfig) w (handlesAgain.take 7)).map fun w' =>
        decide (OutcomesStay (handlesAgain.take 7) w w')) = some false := by
    decide +kernel
  obtain ⟨w, hw, hrest⟩ := Option.bind_eq_some_iff.mp hruns
  obtain ⟨w', hw', hfalse⟩ := Option.map_eq_some_iff.mp hrest
  exact of_decide_eq_false hfalse (h failsFirstAnalysis (handlesAgain.take 7) w w' hw hw')

end VocalCoach
