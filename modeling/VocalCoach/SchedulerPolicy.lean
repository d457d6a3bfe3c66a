/-
# The policy of a tick

What one `_tick` of the scheduler hands over, against the policy it is there for: an entry of
`analyses:run` first; then, of the entries of `songs:prep`, the oldest one of the song an
analysis has waited for longest, or else the oldest one (`policy`).

The tick knows the entries of `songs:prep` that are pending for its own consumer and those it
claims, a batch of each (`Site.candidates`); with nobody else around it hands over what the
policy chooses of these (`triple_tick_chosen`).  Whatever goes on around it, a tick hands over
one entry at most, and over a run of ticks an entry of `songs:prep` leaves the stream only once
its handler has returned `True`, and is not handed over again then (`tick_policy`).
-/
import VocalCoach.PrepFairness
import VocalCoach.Records
import Mathlib.Data.List.MinMax

namespace VocalCoach

open RedisStream Program Machine

/-! ## The policy -/

/-- The two-queue policy: which entry of `analyses:run` and of `songs:prep` are waiting, which
song each of the latter is for, and the song waited for longest. -/
def policy (run prep : List ℕ) (song : ℕ → Option JobId) (waiting : Option JobId) :
    Option (StreamName × ℕ) :=
  match run with
  | entry :: _ => some (.analysesRun, entry)
  | [] =>
      ((waiting.bind fun id => prep.find? fun entry => song entry = some id).or prep.head?).map
        fun entry => (.songsPrep, entry)

/-- `oldest_waiting_song_id`: `ORDER BY queue_seq LIMIT 1` among the waiting analyses. -/
def Database.oldestWaitingSongId (db : Database) : Option SongId :=
  ((db.analyses.filter fun a => a.status = .waitingForReference).argmin
    Analysis.queueSeq).map Analysis.songId

/-- The lookup finds a song unless no analysis waits, and then one no analysis waits longer for. -/
theorem Database.oldestWaitingSongId_eq_some {db : Database} {songId : SongId}
    (h : db.oldestWaitingSongId = some songId) :
    ∃ a ∈ db.analyses, a.status = .waitingForReference ∧ a.songId = songId ∧
      ∀ b ∈ db.analyses, b.status = .waitingForReference → a.queueSeq ≤ b.queueSeq := by
  obtain ⟨a, ha, rfl⟩ := Option.map_eq_some_iff.mp h
  obtain ⟨hmem, hwaits⟩ := List.mem_filter.mp (List.argmin_mem ha)
  refine ⟨a, hmem, of_decide_eq_true hwaits, rfl, fun b hb hstatus => ?_⟩
  exact List.le_of_mem_argmin (List.mem_filter.mpr ⟨hb, decide_eq_true hstatus⟩) ha

namespace Site

variable (consumerName : ℕ) (s : Site)

/-- The entries of `analyses:run` nobody has been handed yet. -/
def waitingRuns : List ℕ := (s.stream .analysesRun).undelivered.map Entry.id

/-- The song of an entry of `songs:prep`. -/
def songOf (entry : ℕ) : Option JobId := ((s.stream .songsPrep).xrange entry).join

/-- The rows of `songs:prep` a tick can choose from, once it has claimed a batch. -/
def held : List Delivery :=
  ((s.stream .songsPrep).xreadgroup consumerName s.now reclaimBatchSize).xpending
    (some consumerName) 0 s.now reclaimBatchSize

/-- The entries of `songs:prep` a tick can choose from, oldest first. -/
def candidates : List ℕ :=
  ((((s.stream .songsPrep).pending.filter fun d => d.consumer = consumerName).map Delivery.id) ++
    ((s.stream .songsPrep).newEntries reclaimBatchSize).map Entry.id).take reclaimBatchSize

/-- Every entry of `songs:prep` that waits, pending for whichever consumer or undelivered. -/
def waitingPreps : List ℕ :=
  (s.stream .songsPrep).pending.map Delivery.id ++ (s.stream .songsPrep).undelivered.map Entry.id

/-- Every message has a `job_id`, and every row of `songs:prep` its message. -/
structure Carrying (s : Site) : Prop where
  jobs : ∀ name, ∀ x ∈ (s.stream name).entries, x.fields ≠ none
  rows : ∀ d ∈ (s.stream .songsPrep).pending, ∃ x ∈ (s.stream .songsPrep).entries, x.id = d.id

end Site

/-- Nobody else does anything, and the process lives on. -/
structure Surroundings.Quiet (around : Surroundings) : Prop where
  events : around.events = fun _ => []
  lives : around.diesAt = none

variable {around : Surroundings} {s t s₀ : Site} {consumerName : ℕ}

/-! ## A tick, up to what it hands over -/

/-- **A tick** in general: `I` holds until an entry is handed over and `D` from then on; of an
entry of `songs:prep` whose message is found, `F` is known too. -/
theorem Scheduler.triple_tick {I D E : Site → Prop} {G : Entry (Option JobId) → Prop}
    {F : ℕ → Option JobId → Site → Prop} {sched : Scheduler} (hI : Stable around I)
    (hE : ∀ s, I s → E s)
    (hread : Triple I (sched.analyses.readNext around)
      (fun l s => (l.length ≤ 1 ∧ ∀ x ∈ l, G x) ∧ I s) E)
    (hrun : ∀ x, G x →
      Triple I (sched.analyses.processEntry around x.id x.fields) (fun _ => D) E)
    (hclaim : ∀ s, I s → I (s.update sched.songsPrep.streamName
      (Stream.xreadgroup sched.songsPrep.consumerName s.now reclaimBatchSize)))
    (hfound : ∀ s entry fields, I s →
      (s.stream sched.songsPrep.streamName).xrange entry = some fields → F entry fields s)
    (hprep : ∀ entry fields, Triple (fun s => F entry fields s ∧ I s)
      (sched.songsPrep.processEntry around entry fields) (fun _ => D) E) :
    Triple I (sched.tick around) (fun found s => I s ∨ (found = true ∧ D s)) E := by
  have hclaims : Triple I (sched.songsPrep.claimNewEntries around) (fun _ => I) E :=
    triple_perform hI hclaim hE
  have hpending : Triple I (sched.songsPrep.pendingEntries around) (fun _ => I) E :=
    triple_operate hI (fun _ hs => hs) hE
  have hfields : ∀ entry, Triple I (sched.songsPrep.fieldsFor around entry)
      (fun found s => (∀ fields, found = some fields → F entry fields s) ∧ I s) E := fun entry =>
    triple_operate hI (fun s hs => ⟨fun fields h => hfound s entry fields hs h, hs⟩) hE
  have hnext : Triple I (sched.processNextPrep around)
      (fun found s => I s ∨ (found = true ∧ D s)) E := by
    refine hclaims.bind fun _ => hpending.bind fun pending => ?_
    cases pending with
    | nil => exact triple_pure fun _ hs => Or.inl hs
    | cons d pending =>
      refine (hfields d.id).bind fun found => ?_
      cases found with
      | none => exact triple_pure fun _ hs => Or.inl hs.2
      | some fields =>
        refine Triple.bind ((hprep d.id fields).weaken (fun s hs => ⟨hs.1 fields rfl, hs.2⟩)
          (fun _ _ hs => hs) fun _ hs => hs) fun _ => ?_
        exact triple_pure fun _ hs => Or.inr ⟨rfl, hs⟩
  have hmatching : ∀ songId pending, Triple I (sched.processMatching around songId pending)
      (fun found s => if found then D s else I s) E := by
    intro songId pending
    induction pending with
    | nil => exact triple_pure fun _ hs => hs
    | cons d pending ih =>
      refine (hfields d.id).bind fun found => triple_ite (fun hsong => ?_) fun _ =>
        ih.weaken (fun _ hs => hs.2) (fun _ _ hs => hs) fun _ hs => hs
      refine Triple.bind ((hprep d.id (some songId)).weaken (fun s hs => ⟨hs.1 _ hsong, hs.2⟩)
        (fun _ _ hs => hs) fun _ hs => hs) fun _ => ?_
      exact triple_pure fun _ hs => hs
  have htickPrep : Triple I (sched.tickPrep around)
      (fun found s => I s ∨ (found = true ∧ D s)) E := by
    refine Triple.bind (Q := fun _ => I) (triple_operate hI (fun _ hs => hs) hE) fun songId => ?_
    cases songId with
    | none => exact hnext
    | some songId =>
      refine Triple.bind (hclaims.bind fun _ => hpending.bind (hmatching songId)) fun found => ?_
      cases found with
      | true => exact triple_pure fun _ hs => Or.inr ⟨rfl, hs⟩
      | false => exact hnext
  refine Triple.bind (Q := fun _ => I) (triple_read fun _ hs => hs) fun stopping =>
    triple_ite (fun _ => triple_pure fun _ hs => Or.inl hs) fun _ => ?_
  refine hread.bind fun entries => triple_of_imp fun hgood => ?_
  obtain ⟨hlength, hG⟩ := hgood
  cases entries with
  | nil => exact htickPrep
  | cons x rest =>
    -- at most one entry is delivered
    obtain rfl : rest = [] := List.length_eq_zero_iff.mp (by simpa using hlength)
    refine Triple.bind (Q := fun _ s => I s ∨ D s) ?_ fun _ => triple_pure fun s hs =>
      hs.imp_right fun hD => ⟨rfl, hD⟩
    refine Triple.bind (Q := fun _ => I) (triple_read fun _ hs => hs) fun stopping' =>
      triple_ite (fun _ => triple_pure fun _ hs => Or.inl hs) fun _ => ?_
    exact (hrun x (hG x List.mem_cons_self)).bind fun _ => triple_pure fun _ hs => Or.inr hs

theorem stable_processed_eq (l : List (StreamName × ℕ)) :
    Stable around fun s => s.processed = l :=
  stable_of_meanwhile fun _ _ hs hst => hst.processed.trans hs

/-- Processing an entry is logged once. -/
theorem triple_processEntry_handed (c : Consumer) (entry : ℕ) (fields : Option JobId)
    (p₀ : List (StreamName × ℕ)) :
    Triple (fun s => s.processed = p₀) (c.processEntry around entry fields)
      (fun _ s => s.processed = p₀ ++ [(c.streamName, entry)])
      (fun s => s.processed = p₀ ∨ s.processed = p₀ ++ [(c.streamName, entry)]) := by
  have hlogged := @stable_processed_eq around (p₀ ++ [(c.streamName, entry)])
  exact Consumer.triple_processEntry (stable_processed_eq p₀) hlogged hlogged
    (fun s hs => congrArg (· ++ [_]) hs) (fun s hs => (Site.processed_update _).trans hs)
    (fun s hs => (Site.processed_update _).trans hs) (fun _ _ s hs => hs)
    (fun s hs => Or.inl hs) (fun s hs => Or.inr hs) fun s hs => Or.inr hs

/-- **A tick hands over one entry at most**, whatever goes on around it. -/
theorem triple_tick_handed (p₀ : List (StreamName × ℕ)) :
    Triple (fun s => s.processed = p₀) ((Scheduler.ofConsumer consumerName).tick around)
      (fun found s => s.processed = p₀ ∨ (found = true ∧ ∃ x, s.processed = p₀ ++ [x]))
      (fun s => s.processed = p₀ ∨ ∃ x, s.processed = p₀ ++ [x]) := by
  have hstable := @stable_processed_eq around p₀
  have hprocess : ∀ (c : Consumer) (entry : ℕ) (fields : Option JobId),
      Triple (fun s => s.processed = p₀) (c.processEntry around entry fields)
        (fun _ s => ∃ x, s.processed = p₀ ++ [x])
        (fun s => s.processed = p₀ ∨ ∃ x, s.processed = p₀ ++ [x]) := fun c entry fields =>
    (triple_processEntry_handed c entry fields p₀).weaken (fun _ hs => hs) (fun _ _ hs => ⟨_, hs⟩)
      fun _ hs => hs.imp_right fun h => ⟨_, h⟩
  refine Scheduler.triple_tick (G := fun _ => True) (F := fun _ _ _ => True) hstable
    (fun s hs => Or.inl hs) ?_ (fun x _ => hprocess _ x.id x.fields)
    (fun s hs => (Site.processed_update _).trans hs) (fun _ _ _ _ _ => trivial)
    fun entry fields => (hprocess _ entry fields).weaken (fun _ hs => hs.2) (fun _ _ hs => hs)
      fun _ hs => hs
  refine triple_operate hstable (fun s hs => ⟨⟨?_, fun _ _ => trivial⟩, ?_⟩) fun s hs => Or.inl hs
  · exact List.length_take_le _ _
  · exact (Site.processed_update _).trans hs

/-! ## A tick that nobody disturbs -/

/-- A process that lives on is through with its tick. -/
theorem Scheduler.uncut_tick (hlives : around.diesAt = none) (sched : Scheduler) :
    Uncut (sched.tick around) := by
  have hoperate : ∀ {α : Type} (f : Site → α × Site), Uncut (operate around f) := by
    intro α f s
    unfold operate
    rw [hlives]
    exact ⟨_, _, rfl⟩
  have hprocess : ∀ (c : Consumer) (entry : ℕ) (fields : Option JobId),
      Uncut (c.processEntry around entry fields) := by
    intro c entry fields
    have hack : Uncut (c.ackAndRemove around entry) := (hoperate _).bind fun _ => hoperate _
    refine (hoperate _).bind fun _ => ?_
    cases fields with
    | none => exact hack
    | some id => exact Uncut.bind (hoperate _) fun _ => uncut_ite hack (uncut_pure ())
  have hfirst : ∀ l, Uncut (processFirst around sched.analyses l) := by
    intro l
    induction l with
    | nil => exact uncut_pure ()
    | cons x l ih =>
      exact (uncut_read _).bind fun _ => uncut_ite (uncut_pure ())
        ((hprocess _ _ _).bind fun _ => ih)
  have hmatching : ∀ songId l, Uncut (sched.processMatching around songId l) := by
    intro songId l
    induction l with
    | nil => exact uncut_pure false
    | cons d l ih =>
      exact Uncut.bind (hoperate _) fun _ => uncut_ite
        ((hprocess _ _ _).bind fun _ => uncut_pure true) ih
  have hclaim : Uncut (sched.songsPrep.claimNewEntries around) := by
    unfold Consumer.claimNewEntries perform
    exact hoperate _
  have hnext : Uncut (sched.processNextPrep around) := by
    refine hclaim.bind fun _ => Uncut.bind (hoperate _) fun pending => ?_
    cases pending with
    | nil => exact uncut_pure false
    | cons d pending =>
      refine Uncut.bind (hoperate _) fun fields => ?_
      cases fields with
      | none => exact uncut_pure false
      | some fields => exact (hprocess _ _ _).bind fun _ => uncut_pure true
  have hprep : Uncut (sched.tickPrep around) := by
    refine Uncut.bind (hoperate _) fun songId => ?_
    cases songId with
    | none => exact hnext
    | some songId =>
      refine Uncut.bind ?_ fun found => uncut_ite (uncut_pure true) hnext
      exact hclaim.bind fun _ => Uncut.bind (hoperate _) (hmatching songId)
  refine (uncut_read _).bind fun _ => uncut_ite (uncut_pure false) ?_
  refine Uncut.bind (hoperate _) fun entries => ?_
  cases entries with
  | nil => exact hprep
  | cons x rest => exact (hfirst _).bind fun _ => uncut_pure true

/-- The site is as it was, but for its clock. -/
def Site.Is (s₀ s : Site) : Prop := s.again = s₀.again

theorem stable_is (hquiet : around.events = fun _ => []) : Stable around (Site.Is s₀) := by
  intro s hs
  have hmeanwhile : (s.meanwhile around).again = s.again := by
    unfold Site.meanwhile
    rw [hquiet]
    rfl
  exact hmeanwhile.trans hs

namespace Site.Is

theorem stream (h : s₀.Is s) (name : StreamName) : s.stream name = s₀.stream name := by
  have hsame := congrArg (fun u => u.stream name) h
  simpa using hsame

theorem now (h : s₀.Is s) : s.now = s₀.now := congrArg (fun u => u.now) h

theorem stopping (h : s₀.Is s) : s.stopping = s₀.stopping := congrArg (fun u => u.stopping) h

theorem processed (h : s₀.Is s) : s.processed = s₀.processed := congrArg (fun u => u.processed) h

theorem update {name : StreamName} {f g : Stream (Option JobId) → Stream (Option JobId)}
    (h : s₀.Is s) (hfg : f (s₀.stream name) = g (s₀.stream name)) :
    (s₀.update name g).Is (s.update name f) := by
  have hstream := h.stream name
  obtain ⟨r, p, n, st, pr, c⟩ := s
  obtain ⟨r₀, p₀, n₀, st₀, pr₀, c₀⟩ := s₀
  cases name <;> simp_all [Site.Is, Site.again, Site.update, Site.stream]

end Site.Is

namespace Site

/-- The site once a tick has claimed the entries of `songs:prep`. -/
def claimed (consumerName : ℕ) (s : Site) : Site :=
  s.update .songsPrep (Stream.xreadgroup consumerName s.now reclaimBatchSize)

theorem map_held (s : Site) (consumerName : ℕ) :
    (s.held consumerName).map Delivery.id = s.candidates consumerName := by
  have hown : ∀ d : Delivery, decide (0 ≤ d.idle s.now ∧
      (some consumerName = none ∨ some consumerName = some d.consumer))
        = decide (d.consumer = consumerName) := by
    intro d
    refine decide_eq_decide.mpr ⟨?_, fun h => ⟨Nat.zero_le _, Or.inr (congrArg some h.symm)⟩⟩
    rintro ⟨-, h | h⟩
    · cases h
    · exact (Option.some.inj h).symm
  unfold held candidates Stream.xpending Stream.xreadgroup
  dsimp only
  rw [List.map_take, funext hown, List.filter_append, List.map_append]
  congr 2
  rw [List.filter_eq_self.mpr, List.map_map]
  · rfl
  · intro d hd
    obtain ⟨x, -, rfl⟩ := List.mem_map.mp hd
    exact decide_eq_true rfl

/-- Once the entries are claimed, claiming more of them leaves the oldest one first. -/
theorem head?_candidates_claimed (s : Site) (consumerName : ℕ) :
    ((s.claimed consumerName).candidates consumerName).head?
      = (s.candidates consumerName).head? := by
  have hhead : ∀ l m : List ℕ, l ≠ [] ∨ m = [] →
      ((l ++ m).take reclaimBatchSize).head? = (l.take reclaimBatchSize).head? := by
    intro l m h
    cases l with
    | nil =>
      obtain rfl := h.resolve_left fun hne => hne rfl
      rfl
    | cons a l => rfl
  have hown : ((((s.claimed consumerName).stream .songsPrep).pending.filter fun d =>
      d.consumer = consumerName).map Delivery.id)
        = (((s.stream .songsPrep).pending.filter fun d => d.consumer = consumerName).map
            Delivery.id) ++ ((s.stream .songsPrep).newEntries reclaimBatchSize).map Entry.id := by
    unfold claimed
    rw [stream_update_self]
    unfold Stream.xreadgroup
    dsimp only
    rw [List.filter_append, List.map_append]
    congr 1
    rw [List.filter_eq_self.mpr, List.map_map]
    · rfl
    · intro d hd
      obtain ⟨x, -, rfl⟩ := List.mem_map.mp hd
      exact decide_eq_true rfl
  unfold candidates
  rw [hown]
  refine hhead _ _ ?_
  by_cases hnew : (s.stream .songsPrep).newEntries reclaimBatchSize = []
  · right
    have hnone : (s.stream .songsPrep).undelivered = [] := by
      rcases List.take_eq_nil_iff.mp hnew with hzero | hnil
      · cases hzero
      · exact hnil
    have hsame : (s.claimed consumerName).stream .songsPrep = s.stream .songsPrep := by
      unfold claimed
      rw [stream_update_self]
      unfold Stream.xreadgroup
      rw [hnew]
      simp
    rw [hsame, Stream.newEntries, hnone]
    rfl
  · left
    intro hnil
    exact hnew (List.map_eq_nil_iff.mp (List.append_eq_nil_iff.mp hnil).2)

theorem Carrying.claimed (h : s.Carrying) : (s.claimed consumerName).Carrying := by
  refine ⟨fun name x hx => ?_, fun d hd => ?_⟩
  · refine h.jobs name x ?_
    cases name <;> exact hx
  · unfold Site.claimed at hd ⊢
    rw [stream_update_self] at hd ⊢
    rcases List.mem_append.mp hd with hd | hd
    · exact h.rows d hd
    · obtain ⟨x, hx, rfl⟩ := List.mem_map.mp hd
      exact ⟨x, (Stream.mem_of_newEntries hx).1, rfl⟩

/-- The message of a row that a tick can choose is there. -/
theorem Carrying.xrange_held (h : s.Carrying) {d : Delivery} (hd : d ∈ s.held consumerName) :
    (((s.claimed consumerName).stream .songsPrep).xrange d.id).isSome := by
  have hpending : d ∈ ((s.claimed consumerName).stream .songsPrep).pending := by
    unfold Site.claimed
    rw [stream_update_self]
    exact List.mem_of_mem_filter (List.mem_of_mem_take hd)
  obtain ⟨x, hx, hid⟩ := h.claimed.rows d hpending
  rw [← hid]
  exact Stream.xrange_isSome hx

end Site

theorem Site.songOf_eq_some {s : Site} {entry : ℕ} {songId : JobId} :
    s.songOf entry = some songId ↔ (s.stream .songsPrep).xrange entry = some (some songId) := by
  unfold Site.songOf
  cases (s.stream .songsPrep).xrange entry with
  | none => simp
  | some fields => simp

/-- Handing over an entry of `songs:prep`, as the last thing a tick does. -/
theorem triple_hand_is (entry : ℕ) (fields : Option JobId) :
    Triple s₀.Is ((Consumer.songsPrep consumerName).processEntry around entry fields >>= fun _ =>
        pure true)
      (fun found s => found = true ∧ s.processed = s₀.processed ++ [(.songsPrep, entry)])
      (fun _ => True) := by
  have hentry := @triple_processEntry_handed around (.songsPrep consumerName) entry
    fields s₀.processed
  refine Triple.bind (hentry.weaken (fun s hs => hs.processed) (fun _ _ hs => hs)
    fun _ _ => trivial) fun _ => ?_
  exact triple_pure fun s hs => ⟨rfl, hs⟩

section Chosen

variable (hquiet : around.events = fun _ => [])
include hquiet

theorem triple_claimNewEntries_is :
    Triple (Site.Is s₀) ((Consumer.songsPrep consumerName).claimNewEntries around)
      (fun _ => (s₀.claimed consumerName).Is) (fun _ => True) := by
  refine triple_perform (stable_is hquiet) (fun s hs => ?_) fun _ _ => trivial
  refine hs.update ?_
  rw [hs.now]
  rfl

theorem triple_pendingEntries_is :
    Triple (s₀.claimed consumerName).Is
      ((Consumer.songsPrep consumerName).pendingEntries around)
      (fun l s => l = s₀.held consumerName ∧ (s₀.claimed consumerName).Is s)
      (fun _ => True) := by
  refine triple_operate (stable_is hquiet) (fun s hs => ⟨?_, hs⟩) fun _ _ => trivial
  have hstream := hs.stream .songsPrep
  have hnow := hs.now
  unfold Site.claimed at hstream hnow
  rw [Site.stream_update_self] at hstream
  rw [Site.now_update] at hnow
  show (s.stream .songsPrep).xpending (some consumerName) 0 s.now reclaimBatchSize = _
  rw [hstream, hnow]
  rfl

theorem triple_fieldsFor_is (entry : ℕ) :
    Triple s₀.Is ((Consumer.songsPrep consumerName).fieldsFor around entry)
      (fun found s => found = (s₀.stream .songsPrep).xrange entry ∧ s₀.Is s) (fun _ => True) := by
  refine triple_operate (stable_is hquiet) (fun s hs => ⟨?_, hs⟩) fun _ _ => trivial
  exact congrArg (fun u => u.xrange entry) (hs.stream .songsPrep)

/-- **`_process_next_prep`** hands over the oldest entry. -/
theorem triple_processNextPrep_is (hcarry : s₀.Carrying) :
    Triple s₀.Is ((Scheduler.ofConsumer consumerName).processNextPrep around)
      (fun found s => found = (s₀.candidates consumerName).head?.isSome ∧ s.processed =
        s₀.processed ++ ((s₀.candidates consumerName).head?.map fun e =>
          (StreamName.songsPrep, e)).toList)
      (fun _ => True) := by
  refine (triple_claimNewEntries_is hquiet).bind fun _ =>
    (triple_pendingEntries_is hquiet).bind fun pending => triple_of_imp fun hheld => ?_
  rw [← Site.map_held, ← hheld]
  cases pending with
  | nil =>
    refine triple_pure fun s hs => ⟨rfl, ?_⟩
    rw [hs.processed, Site.claimed, Site.processed_update]
    exact (List.append_nil _).symm
  | cons d pending =>
    have hthere := hcarry.xrange_held (hheld ▸ List.mem_cons_self)
    refine (triple_fieldsFor_is hquiet d.id).bind fun found => triple_of_imp fun hfound => ?_
    rw [← hfound] at hthere
    cases found with
    | none => cases hthere
    | some fields =>
      refine (triple_hand_is d.id fields).weaken (fun _ hs => hs) (fun found s hs => ?_)
        fun _ hs => hs
      rw [Site.claimed, Site.processed_update] at hs
      exact hs

/-- **The search for a song** finds its oldest entry. -/
theorem triple_processMatching_is (songId : JobId) (pending : List Delivery) :
    Triple s₀.Is ((Scheduler.ofConsumer consumerName).processMatching around songId pending)
      (fun found s =>
        match pending.find? fun d => (s₀.stream .songsPrep).xrange d.id = some (some songId) with
        | some d => found = true ∧ s.processed = s₀.processed ++ [(.songsPrep, d.id)]
        | none => found = false ∧ s₀.Is s)
      (fun _ => True) := by
  induction pending with
  | nil => exact triple_pure fun s hs => ⟨rfl, hs⟩
  | cons d pending ih =>
    refine (triple_fieldsFor_is hquiet d.id).bind fun found => triple_of_imp fun hfound => ?_
    rw [List.find?_cons]
    by_cases hsong : found = some (some songId)
    · rw [if_pos hsong, ← hfound, decide_eq_true hsong]
      exact triple_hand_is d.id (some songId)
    · rw [if_neg hsong, ← hfound, decide_eq_false hsong]
      exact ih

/-- The part of a tick about `songs:prep` hands over what the policy chooses of it. -/
theorem triple_tickPrep_is (hcarry : s₀.Carrying) :
    Triple s₀.Is ((Scheduler.ofConsumer consumerName).tickPrep around)
      (fun found s =>
        found = (policy [] (s₀.candidates consumerName) s₀.songOf
          around.oldestWaitingSong).isSome ∧
        s.processed = s₀.processed ++ (policy [] (s₀.candidates consumerName) s₀.songOf
          around.oldestWaitingSong).toList)
      (fun _ => True) := by
  refine Triple.bind (Q := fun songId s => songId = around.oldestWaitingSong ∧ s₀.Is s)
    (triple_operate (stable_is hquiet) (fun s hs => ⟨rfl, hs⟩) fun _ _ => trivial)
    fun songId => triple_of_imp fun hsongId => ?_
  rw [← hsongId]
  cases songId with
  | none =>
    refine (triple_processNextPrep_is hquiet hcarry).weaken (fun _ hs => hs) (fun found s hs => ?_)
      fun _ hs => hs
    unfold policy
    simpa using hs
  | some songId =>
    set c := s₀.claimed consumerName with hc
    have hpriority : Triple s₀.Is
        ((Scheduler.ofConsumer consumerName).processPriorityPrep around songId)
        (fun found s =>
          match (s₀.held consumerName).find? fun d =>
            (c.stream .songsPrep).xrange d.id = some (some songId) with
          | some d => found = true ∧ s.processed = c.processed ++ [(.songsPrep, d.id)]
          | none => found = false ∧ c.Is s)
        (fun _ => True) := by
      refine (triple_claimNewEntries_is hquiet).bind fun _ =>
        (triple_pendingEntries_is hquiet).bind fun pending => triple_of_imp fun hheld => ?_
      rw [hheld]
      exact triple_processMatching_is hquiet songId (s₀.held consumerName)
    -- the entry of the song, as the policy finds it among the candidates
    have hfind : ((s₀.held consumerName).find? fun d =>
        (c.stream .songsPrep).xrange d.id = some (some songId)).map Delivery.id
          = (s₀.candidates consumerName).find? fun entry => s₀.songOf entry = some songId := by
      rw [← Site.map_held, List.find?_map]
      congr 2
      funext d
      refine decide_eq_decide.mpr (Site.songOf_eq_some.trans ?_).symm
      rw [hc, Site.claimed, Site.stream_update_self]
      exact Iff.rfl
    have hprocessed : c.processed = s₀.processed := Site.processed_update _
    refine hpriority.bind fun found => ?_
    unfold policy
    dsimp only [Option.bind_some]
    rw [← hfind]
    cases hfound : (s₀.held consumerName).find? fun d =>
        (c.stream .songsPrep).xrange d.id = some (some songId) with
    | some d =>
      refine triple_of_imp fun htrue => ?_
      subst htrue
      exact triple_pure fun s hs => ⟨rfl, hs.trans (by rw [hprocessed]; rfl)⟩
    | none =>
      refine triple_of_imp fun hfalse => ?_
      subst hfalse
      refine (triple_processNextPrep_is hquiet hcarry.claimed).weaken (fun _ hs => hs)
        (fun found s hs => ?_) fun _ hs => hs
      rw [Site.head?_candidates_claimed, Site.claimed, Site.processed_update] at hs
      simpa using hs

/-- **A tick that nobody disturbs hands over what the policy chooses.** -/
theorem triple_tick_chosen (hcarry : s₀.Carrying) (hrun : s₀.stopping = false) :
    Triple s₀.Is ((Scheduler.ofConsumer consumerName).tick around)
      (fun found s =>
        found = (policy s₀.waitingRuns (s₀.candidates consumerName) s₀.songOf
          around.oldestWaitingSong).isSome ∧
        s.processed = s₀.processed ++ (policy s₀.waitingRuns (s₀.candidates consumerName)
          s₀.songOf around.oldestWaitingSong).toList)
      (fun _ => True) := by
  have hgoes : ∀ {s₁ : Site}, s₁.stopping = false → Triple s₁.Is (read Site.stopping)
      (fun stopping s => stopping = false ∧ s₁.Is s) (fun _ => True) := fun hs₁ =>
    triple_read fun s hs => ⟨hs.stopping.trans hs₁, hs⟩
  refine Triple.bind (hgoes hrun) fun stopping => triple_of_imp fun hstopping => ?_
  subst hstopping
  set r := s₀.update .analysesRun (Stream.xreadgroup consumerName s₀.now 1) with hr
  have hread : Triple s₀.Is ((Consumer.analyses consumerName).readNext around)
      (fun l s => l = (s₀.stream .analysesRun).newEntries 1 ∧ r.Is s) (fun _ => True) := by
    refine triple_operate (stable_is hquiet) (fun s hs => ⟨?_, ?_⟩) fun _ _ => trivial
    · exact congrArg (fun u => u.newEntries 1) (hs.stream .analysesRun)
    · refine hs.update ?_
      rw [hs.now]
      rfl
  refine Triple.bind hread fun entries => triple_of_imp fun hentries => ?_
  unfold Stream.newEntries at hentries
  unfold Site.waitingRuns
  cases hnew : (s₀.stream .analysesRun).undelivered with
  | nil =>
    rw [hnew] at hentries
    subst hentries
    have hidle : s₀.Idle := hnew
    rw [hr, update_xreadgroup_idle hidle]
    exact triple_tickPrep_is hquiet hcarry
  | cons x rest =>
    rw [hnew] at hentries
    subst hentries
    have hstill : r.stopping = false := (Site.stopping_update _).trans hrun
    refine Triple.bind (Q := fun _ s => s.processed = s₀.processed ++ [(.analysesRun, x.id)]) ?_
      fun _ => triple_pure fun s hs => ⟨rfl, hs⟩
    refine Triple.bind (hgoes hstill) fun stopping => triple_of_imp fun hstopping => ?_
    subst hstopping
    have hentry := @triple_processEntry_handed around (.analyses consumerName) x.id
      x.fields s₀.processed
    refine Triple.bind (hentry.weaken (fun s hs => ?_) (fun _ _ hs => hs) fun _ _ => trivial)
      fun _ => triple_pure fun s hs => hs
    exact hs.processed.trans (Site.processed_update _)

end Chosen

/-! ## A run of ticks -/

/-- The site, with the entries of `songs:prep` for which the handler has returned `True`. -/
structure Ticking where
  site : Site
  finished : List ℕ := []

inductive Turn
  | tick (around : Surroundings)
  | outside (events : List Event)

/-- It is an entry of `songs:prep`, and its handler returns `True`. -/
def finishes (around : Surroundings) (x : StreamName × ℕ) : Bool :=
  x.1 = .songsPrep ∧ around.handle .songsPrep x.2 = .finished

/-- The entries of `songs:prep` that a tick has finished, of those it has handed over. -/
def finishedIn (around : Surroundings) (handed : List (StreamName × ℕ)) : List ℕ :=
  (handed.filter (finishes around)).map Prod.snd

/-- A tick of a process that lives on, or what others do between two ticks. -/
def tickStep (consumerName : ℕ) (k : Ticking) : Turn → Option Ticking
  | .tick around =>
      match (Scheduler.ofConsumer consumerName).tick around k.site.again with
      | (some _, t) =>
          some ⟨t, k.finished ++ finishedIn around (t.processed.drop k.site.processed.length)⟩
      | (none, _) => none
  | .outside events => some { k with site := k.site.happen events }

/-- Whatever is published has a `job_id`, and nobody else removes an entry of `songs:prep`. -/
def Event.Usual : Event → Prop
  | .publish _ fields => fields ≠ none
  | .remove name _ => name = .analysesRun
  | _ => True

def Turn.Usual : Turn → Prop
  | .tick around => ∀ clock, ∀ e ∈ around.events clock, e.Usual
  | .outside events => ∀ e ∈ events, e.Usual

theorem Event.Usual.removes {e : Event} (h : e.Usual) : e.removes .songsPrep = false := by
  cases e with
  | remove name entry =>
    cases h
    rfl
  | _ => rfl

theorem Site.Carrying.event {e : Event} (h : s.Carrying) (he : e.Usual) :
    (s.event e).Carrying := by
  refine ⟨fun name x hx => ?_, fun d hd => ?_⟩
  · cases e with
    | sleep seconds =>
      refine h.jobs name x ?_
      cases name <;> exact hx
    | signal =>
      refine h.jobs name x ?_
      cases name <;> exact hx
    | publish other fields =>
      by_cases hname : name = other
      · subst hname
        rw [Site.event, Site.stream_update_self] at hx
        rcases List.mem_append.mp hx with hx | hx
        · exact h.jobs name x hx
        · rw [List.mem_singleton.mp hx]
          exact he
      · rw [Site.event, Site.stream_update_of_ne _ hname] at hx
        exact h.jobs name x hx
    | remove other entry =>
      by_cases hname : name = other
      · subst hname
        rw [Site.event, Site.stream_update_self] at hx
        exact h.jobs name x (List.mem_of_mem_filter hx)
      · rw [Site.event, Site.stream_update_of_ne _ hname] at hx
        exact h.jobs name x hx
  · rw [(Site.event_meanwhile s e).pending] at hd
    obtain ⟨x, hx, hid⟩ := h.rows d hd
    exact ⟨x, mem_entries_event hx he.removes, hid⟩

theorem Site.Carrying.happen {events : List Event} (h : s.Carrying)
    (hevents : ∀ e ∈ events, e.Usual) : (s.happen events).Carrying := by
  induction events generalizing s with
  | nil => exact h
  | cons e events ih =>
    exact ih (h.event (hevents e List.mem_cons_self)) fun a ha =>
      hevents a (List.mem_cons_of_mem e ha)

theorem Outstanding.happen {events : List Event} {x : Entry (Option JobId)}
    (h : (s.stream .songsPrep).Outstanding x) (hevents : ∀ e ∈ events, e.Usual) :
    ((s.happen events).stream .songsPrep).Outstanding x := by
  have hst := Site.happen_meanwhile s events
  refine ⟨mem_entries_happen h.1 fun e he => (hevents e he).removes, ?_⟩
  rw [hst.lastDelivered, hst.pending]
  exact h.2

/-- The entry has left `songs:prep` for good. -/
structure Site.Gone (entry : ℕ) (s : Site) : Prop where
  entries : ∀ x ∈ (s.stream .songsPrep).entries, x.id ≠ entry
  le : entry ≤ (s.stream .songsPrep).lastId

theorem Site.Gone.meanwhile {entry : ℕ} (h : s.Gone entry) (hst : Site.Meanwhile s t) :
    t.Gone entry := by
  refine ⟨fun x hx hid => ?_, h.le.trans (hst.lastId_le _)⟩
  rcases hst.entries .songsPrep x hx with hx | hnew
  · exact h.entries x hx hid
  · have hle := h.le
    omega

/-- No command of a consumer brings an entry back. -/
theorem Site.Gone.update {entry : ℕ} {name : StreamName}
    {f : Stream (Option JobId) → Stream (Option JobId)} (h : s.Gone entry)
    (hentries : ∀ u, (f u).entries ⊆ u.entries) (hlast : ∀ u, (f u).lastId = u.lastId) :
    (s.update name f).Gone entry := by
  by_cases hname : StreamName.songsPrep = name
  · subst hname
    refine ⟨fun x hx => ?_, ?_⟩
    · rw [Site.stream_update_self] at hx
      exact h.entries x (hentries _ hx)
    · rw [Site.stream_update_self, hlast]
      exact h.le
  · refine ⟨fun x hx => ?_, ?_⟩
    · rw [Site.stream_update_of_ne _ hname] at hx
      exact h.entries x hx
    · rw [Site.stream_update_of_ne _ hname]
      exact h.le

theorem Site.Gone.respects (entry : ℕ) (c : Consumer) : c.Respects around (Site.Gone entry) where
  stable := stable_of_meanwhile fun _ _ h hst => h.meanwhile hst
  log s _ h := by
    refine ⟨fun x hx => h.entries x ?_, ?_⟩
    · rwa [Site.stream_log] at hx
    · rw [Site.stream_log]
      exact h.le
  recorded s _ h := by
    refine ⟨fun x hx => h.entries x ?_, ?_⟩
    · rwa [Site.stream_recorded] at hx
    · rw [Site.stream_recorded]
      exact h.le
  xack _ _ h := h.update (fun _ _ hx => hx) fun _ => rfl
  xdel _ _ h := h.update (fun _ _ hx => List.mem_of_mem_filter hx) fun _ => rfl
  xreadgroup _ _ _ h := h.update (fun _ _ hx => hx) fun _ => rfl
  xclaim s consumer minIdle entry h := by
    refine h.update (fun u => ?_) fun u => (Stream.xclaim_entries u consumer minIdle s.now entry).2.1
    rw [(Stream.xclaim_entries u consumer minIdle s.now entry).1]
    exact fun _ hx => hx

/-- **An entry that has left** is not handed over, and does not come back, whatever goes on
around the tick. -/
theorem triple_tick_gone (entry : ℕ) (p₀ : List (StreamName × ℕ)) :
    Triple (fun s : Site => s.Gone entry ∧ s.processed = p₀)
      ((Scheduler.ofConsumer consumerName).tick around)
      (fun _ s => s.Gone entry ∧ ∃ l, (StreamName.songsPrep, entry) ∉ l ∧ s.processed = p₀ ++ l)
      (fun s => s.Gone entry ∧
        ∃ l, (StreamName.songsPrep, entry) ∉ l ∧ s.processed = p₀ ++ l) := by
  have hstable : Stable around fun s => s.Gone entry ∧ s.processed = p₀ :=
    stable_of_meanwhile fun s t hs hst => ⟨hs.1.meanwhile hst, hst.processed.trans hs.2⟩
  have hnone : ∀ s : Site, s.Gone entry ∧ s.processed = p₀ → s.Gone entry ∧
      ∃ l, (StreamName.songsPrep, entry) ∉ l ∧ s.processed = p₀ ++ l :=
    fun s hs => ⟨hs.1, [], List.not_mem_nil, hs.2.trans (List.append_nil _).symm⟩
  have hread : ∀ (name : StreamName) (n : ℕ) (s : Site), s.Gone entry ∧ s.processed = p₀ →
      (s.update name (Stream.xreadgroup consumerName s.now n)).Gone entry ∧
        (s.update name (Stream.xreadgroup consumerName s.now n)).processed = p₀ := fun _ _ s hs =>
    ⟨hs.1.update (fun _ _ hx => hx) fun _ => rfl, (Site.processed_update _).trans hs.2⟩
  have hprocess : ∀ (c : Consumer) (entry' : ℕ) (fields : Option JobId),
      (c.streamName, entry') ≠ (.songsPrep, entry) →
      Triple (fun s : Site => s.Gone entry ∧ s.processed = p₀)
        (c.processEntry around entry' fields)
        (fun _ s => s.Gone entry ∧
          ∃ l, (StreamName.songsPrep, entry) ∉ l ∧ s.processed = p₀ ++ l)
        (fun s => s.Gone entry ∧
          ∃ l, (StreamName.songsPrep, entry) ∉ l ∧ s.processed = p₀ ++ l) := by
    intro c entry' fields hne
    have hnot : (StreamName.songsPrep, entry) ∉ [(c.streamName, entry')] := fun hmem =>
      hne (List.mem_singleton.mp hmem).symm
    have hgone := (@Site.Gone.respects around entry c).processEntry entry' fields
    refine (Triple.and hgone (triple_processEntry_handed c entry' fields p₀)).weaken
      (fun _ hs => hs) (fun _ s hs => ⟨hs.1, _, hnot, hs.2⟩) fun s hs => ?_
    rcases hs.2 with hsame | hlogged
    · exact hnone s ⟨hs.1, hsame⟩
    · exact ⟨hs.1, _, hnot, hlogged⟩
  have htick := @Scheduler.triple_tick around _ _ _ (fun _ => True) (fun entry' _ _ => entry' ≠ entry)
    (.ofConsumer consumerName) hstable hnone
    (triple_operate hstable (fun s hs =>
      ⟨⟨List.length_take_le _ _, fun _ _ => trivial⟩, hread .analysesRun 1 s hs⟩) hnone)
    (fun x _ => hprocess _ x.id x.fields fun heq => by cases (Prod.mk.inj heq).1)
    (hread .songsPrep reclaimBatchSize)
    (fun s entry' fields hs hfound => hs.1.entries _ (Stream.mem_of_xrange hfound))
    fun entry' fields => ?_
  · refine htick.weaken (fun _ hs => hs) (fun found s hs => ?_) fun _ hs => hs
    rcases hs with hs | ⟨-, hs⟩
    · exact hnone s hs
    · exact hs
  · rintro s ⟨hne, hs⟩
    exact hprocess _ entry' fields (fun heq => hne (Prod.mk.inj heq).2) s hs

/-- What goes on in a tick: the site is sound, and every entry of `songs:prep` that was
outstanding is, but for one. -/
structure Site.Going (s₀ : Site) (p : List (StreamName × ℕ)) (but : Option ℕ) (s : Site) :
    Prop where
  sound : s.Sound
  carrying : s.Carrying
  processed : s.processed = p
  outstanding : ∀ x, (s₀.stream .songsPrep).Outstanding x → some x.id ≠ but →
    (s.stream .songsPrep).Outstanding x

section Going

variable {p : List (StreamName × ℕ)} {but : Option ℕ} {entry : ℕ}

theorem stable_going (husual : ∀ clock, ∀ e ∈ around.events clock, e.Usual) :
    Stable around (Site.Going s₀ p but) := by
  intro s hs
  have hst := Site.meanwhile_meanwhile around s
  have hcarrying := hs.carrying.happen (husual s.clock)
  refine ⟨hs.sound.meanwhile hst, ⟨fun name x hx => hcarrying.jobs name x ?_, hcarrying.rows⟩,
    hst.processed.trans hs.processed, fun x hx hne => ?_⟩
  · cases name <;> exact hx
  · exact Outstanding.happen (hs.outstanding x hx hne) (husual s.clock)

theorem Site.Going.log (h : Site.Going s₀ p but s) (name : StreamName) (entry : ℕ) :
    Site.Going s₀ (p ++ [(name, entry)]) but (s.log name entry) := by
  refine ⟨h.sound.of_streams fun _ => stream_log, ⟨fun other x hx => h.carrying.jobs other x ?_,
    h.carrying.rows⟩, congrArg (· ++ [_]) h.processed, h.outstanding⟩
  rwa [stream_log] at hx

/-- A command on `analyses:run` that brings no message. -/
theorem Site.Going.update_run {f : Stream (Option JobId) → Stream (Option JobId)}
    (h : Site.Going s₀ p but s) (hentries : ∀ u, (f u).entries ⊆ u.entries)
    (hsound : (s.update .analysesRun f).Sound) :
    Site.Going s₀ p but (s.update .analysesRun f) := by
  refine ⟨hsound, ⟨fun name x hx => ?_, h.carrying.rows⟩, h.processed, h.outstanding⟩
  cases name with
  | analysesRun => exact h.carrying.jobs .analysesRun x (hentries _ hx)
  | songsPrep => exact h.carrying.jobs .songsPrep x hx

/-- Claiming makes rows of undelivered entries. -/
theorem Site.Going.claimed (h : Site.Going s₀ p but s) :
    Site.Going s₀ p but (s.claimed consumerName) := by
  refine ⟨(Site.Sound.respects {} (.songsPrep consumerName)).xreadgroup s consumerName
    reclaimBatchSize h.sound, h.carrying.claimed, h.processed, fun x hx hne => ?_⟩
  exact (h.outstanding x hx hne).xreadgroup (h.sound.ordered .songsPrep) consumerName s.now
    reclaimBatchSize

theorem Site.Going.xack (h : Site.Going s₀ p none s) (entry : ℕ) :
    Site.Going s₀ p (some entry) (s.update .songsPrep (Stream.xack entry)) := by
  refine ⟨(Site.Sound.respects {} (.songsPrep 0)).xack s entry h.sound,
    ⟨fun name x hx => ?_, fun d hd => ?_⟩, h.processed, fun x hx hne => ?_⟩
  · refine h.carrying.jobs name x ?_
    cases name <;> exact hx
  · exact h.carrying.rows d (List.mem_of_mem_filter hd)
  · exact (h.outstanding x hx nofun).xack fun hid => hne (congrArg some hid)

/-- The entry is removed once no row is left of it. -/
theorem Site.Going.xdel (h : Site.Going s₀ p (some entry) s)
    (hrows : ∀ d ∈ (s.stream .songsPrep).pending, d.id ≠ entry) :
    Site.Going s₀ p (some entry) (s.update .songsPrep (Stream.xdel entry)) := by
  refine ⟨(Site.Sound.respects {} (.songsPrep 0)).xdel s entry h.sound,
    ⟨fun name x hx => ?_, fun d hd => ?_⟩, h.processed, fun x hx hne => ?_⟩
  · cases name with
    | analysesRun => exact h.carrying.jobs .analysesRun x hx
    | songsPrep => exact h.carrying.jobs .songsPrep x (List.mem_of_mem_filter hx)
  · obtain ⟨x, hx, hid⟩ := h.carrying.rows d hd
    refine ⟨x, List.mem_filter.mpr ⟨hx, decide_eq_true fun heq => ?_⟩, hid⟩
    exact hrows d hd (hid ▸ heq)
  · exact (h.outstanding x hx hne).xdel fun hid => hne (congrArg some hid)

/-- The site after a tick that has handed over an entry. -/
def Site.Handed (around : Surroundings) (s₀ s : Site) : Prop :=
  ∃ x, s₀.Going (s₀.processed ++ [x]) (if finishes around x then some x.2 else none) s ∧
    (finishes around x = true → s.Gone x.2)

/-- **Handing over an entry of `analyses:run`** concerns none of `songs:prep`. -/
theorem triple_run_handed (husual : ∀ clock, ∀ e ∈ around.events clock, e.Usual)
    (x : Entry (Option JobId)) :
    Triple (s₀.Going s₀.processed none)
      ((Consumer.analyses consumerName).processEntry around x.id x.fields)
      (fun _ => s₀.Handed around) (fun _ => True) := by
  have hsound := Site.Sound.respects around (Consumer.analyses consumerName)
  have hlogged := @stable_going around s₀ (s₀.processed ++ [(.analysesRun, x.id)]) none
    husual
  refine Triple.weaken (Consumer.triple_processEntry (stable_going husual) hlogged hlogged
    (fun s hs => hs.log _ _)
    (fun s hs => hs.update_run (fun _ _ hx => hx) (hsound.xack s x.id hs.sound))
    (fun s hs => hs.update_run (fun _ _ hx => List.mem_of_mem_filter hx) (hsound.xdel s x.id hs.sound))
    (fun _ _ s hs => hs) (fun _ _ => trivial) (fun _ _ => trivial) fun _ _ => trivial)
    (fun _ hs => hs) (fun _ s hs => ⟨_, hs, fun hfin => ?_⟩) fun _ hs => hs
  exact absurd (of_decide_eq_true hfin).1 nofun

/-- The message of an entry of `songs:prep` is there. -/
def Site.Has (entry : ℕ) (fields : Option JobId) (s : Site) : Prop :=
  ⟨entry, fields⟩ ∈ (s.stream .songsPrep).entries

/-- The entry was published once. -/
def Site.Known (entry : ℕ) (s : Site) : Prop := entry ≤ (s.stream .songsPrep).lastId

theorem stable_known {P : Site → Prop} (hP : Stable around P) :
    Stable around fun s => s.Known entry ∧ P s := fun s hs =>
  ⟨hs.1.trans ((Site.meanwhile_meanwhile around s).lastId_le _), hP s hs.2⟩

/-- **`process_entry`** leaves an entry that the handler does not finish. -/
theorem Consumer.triple_processEntry_left {c : Consumer} {id : JobId} {P R E : Site → Prop}
    (hnot : around.handle c.streamName entry ≠ .finished) (hP : Stable around P)
    (hR : Stable around R) (hlog : ∀ s, P s → R (s.log c.streamName entry))
    (hPE : ∀ s, P s → E s) (hRE : ∀ s, R s → E s) :
    Triple P (c.processEntry around entry (some id)) (fun _ => R) E := by
  refine (triple_perform hP hlog hPE).bind fun _ => ?_
  have hhandle : Triple R (c.handle around entry)
      (fun handled s => handled = around.handle c.streamName entry ∧ R s) E :=
    triple_operate hR (fun s hs => ⟨rfl, hs⟩) hRE
  refine hhandle.bind fun handled => triple_of_imp fun hhandled => ?_
  exact triple_ite (fun hfin => absurd (hhandled.symm.trans hfin) hnot) fun _ =>
    triple_pure fun _ hs => hs

/-- **Handing over an entry of `songs:prep`**: it leaves only if its handler returns `True`,
and then for good. -/
theorem triple_prep_handed (husual : ∀ clock, ∀ e ∈ around.events clock, e.Usual)
    (fields : Option JobId) :
    Triple (fun s => s.Has entry fields ∧ s₀.Going s₀.processed none s)
      ((Consumer.songsPrep consumerName).processEntry around entry fields)
      (fun _ => s₀.Handed around) (fun _ => True) := by
  set logged := s₀.processed ++ [(StreamName.songsPrep, entry)] with hloggedDef
  have hbefore : Stable around fun s => s.Has entry fields ∧ s₀.Going s₀.processed none s :=
    fun s hs => ⟨mem_entries_meanwhile (fun clock e he => (husual clock e he).removes) hs.1,
      stable_going husual s hs.2⟩
  have hlog : ∀ s, s.Has entry fields ∧ s₀.Going s₀.processed none s →
      (s.log .songsPrep entry).Known entry ∧ s₀.Going logged none (s.log .songsPrep entry) :=
    fun s hs => ⟨(hs.2.sound.ordered .songsPrep).entries_le _ hs.1, hs.2.log _ _⟩
  by_cases hfin : around.handle .songsPrep entry = .finished
  · -- the handler returns `True`: the entry is acknowledged, and then removed
    have hfinishes : finishes around (StreamName.songsPrep, entry) = true :=
      decide_eq_true ⟨rfl, hfin⟩
    have hacked : Stable around fun s => s.Known entry ∧ s₀.Going logged (some entry) s ∧
        ∀ d ∈ (s.stream .songsPrep).pending, d.id ≠ entry := by
      refine stable_known fun s hs => ⟨stable_going husual s hs.1, fun d hd => ?_⟩
      rw [(Site.meanwhile_meanwhile around s).pending] at hd
      exact hs.2 d hd
    refine Triple.weaken (Consumer.triple_processEntry hbefore
      (stable_known (stable_going husual)) hacked hlog (fun s hs => ⟨hs.1, hs.2.xack entry, ?_⟩)
      (fun s hs => ?_) (fun _ hnot => absurd hfin hnot) (fun _ _ => trivial) (fun _ _ => trivial)
      fun _ _ => trivial) (fun _ hs => hs) (fun _ s hs => hs) fun _ hs => hs
    · intro d hd
      exact of_decide_eq_true (List.mem_filter.mp hd).2
    · refine ⟨(.songsPrep, entry), ?_, fun _ => ⟨fun x hx => ?_, hs.1⟩⟩
      · rw [if_pos hfinishes]
        exact hs.2.1.xdel hs.2.2
      · exact of_decide_eq_true (List.mem_filter.mp hx).2
  · -- it does not: the entry is left as it is
    have hfinishes : ¬ finishes around (StreamName.songsPrep, entry) = true := fun h =>
      hfin (of_decide_eq_true h).2
    cases fields with
    | none => exact fun s hs => absurd rfl (hs.2.carrying.jobs .songsPrep _ hs.1)
    | some id =>
      refine Triple.weaken (Consumer.triple_processEntry_left hfin hbefore
        (stable_known (stable_going husual)) hlog (fun _ _ => trivial) fun _ _ => trivial)
        (fun _ hs => hs) (fun _ s hs => ?_) fun _ hs => hs
      refine ⟨(.songsPrep, entry), ?_, fun h => absurd h hfinishes⟩
      rw [if_neg hfinishes]
      exact hs.2

/-- **A tick** leaves `songs:prep` as it is, or hands over an entry. -/
theorem triple_tick_going (husual : ∀ clock, ∀ e ∈ around.events clock, e.Usual) :
    Triple (s₀.Going s₀.processed none) ((Scheduler.ofConsumer consumerName).tick around)
      (fun _ s => s₀.Going s₀.processed none s ∨ s₀.Handed around s) (fun _ => True) := by
  have hread : Triple (s₀.Going s₀.processed none)
      ((Scheduler.ofConsumer consumerName).analyses.readNext around)
      (fun l s => (l.length ≤ 1 ∧ ∀ x ∈ l, True) ∧ s₀.Going s₀.processed none s)
      (fun _ => True) := by
    refine triple_operate (stable_going husual) (fun s hs => ⟨⟨?_, fun _ _ => trivial⟩, ?_⟩)
      fun _ _ => trivial
    · exact List.length_take_le _ _
    · exact hs.update_run (fun _ _ hx => hx)
        ((Site.Sound.respects around (.analyses consumerName)).xreadgroup s consumerName 1 hs.sound)
  have htick := @Scheduler.triple_tick around _ (s₀.Handed around) _ (fun _ => True) Site.Has
    (.ofConsumer consumerName) (stable_going husual) (fun _ _ => trivial) hread
    (fun x _ => triple_run_handed husual x) (fun s hs => hs.claimed)
    (fun s entry fields _ hfound => Stream.mem_of_xrange hfound)
    fun entry fields => triple_prep_handed husual fields
  exact htick.weaken (fun _ hs => hs) (fun _ s hs => hs.imp_right And.right) fun _ hs => hs

end Going

/-- What a run of ticks keeps, since `s₀`. -/
structure Ticking.Good (s₀ : Site) (k : Ticking) : Prop where
  sound : k.site.Sound
  carrying : k.site.Carrying
  gone : ∀ entry ∈ k.finished, k.site.Gone entry
  kept : ∀ x, (s₀.stream .songsPrep).Outstanding x →
    (k.site.stream .songsPrep).Outstanding x ∨ x.id ∈ k.finished

/-- **Every turn of a run keeps it.** -/
theorem Ticking.Good.step {k k' : Ticking} {a : Turn} (h : k.Good s₀) (husual : a.Usual)
    (hstep : tickStep consumerName k a = some k') : k'.Good s₀ := by
  cases a with
  | tick around =>
    have hsound : k.site.again.Sound := h.sound.of_streams fun _ => Site.stream_again
    have hstart : k.site.again.Going k.site.again.processed none k.site.again :=
      ⟨hsound, ⟨h.carrying.jobs, h.carrying.rows⟩, rfl, fun _ hx _ => hx⟩
    unfold tickStep at hstep
    dsimp only at hstep
    cases hrun : (Scheduler.ofConsumer consumerName).tick around k.site.again with
    | mk result t =>
      rw [hrun] at hstep
      cases result with
      | none => cases hstep
      | some found =>
        cases hstep
        -- what is finished stays so, whatever the tick hands over
        have hold : ∀ entry ∈ k.finished, t.Gone entry := by
          intro entry hentry
          have hgone : k.site.again.Gone entry :=
            ⟨(h.gone entry hentry).entries, (h.gone entry hentry).le⟩
          exact ((triple_tick_gone entry k.site.again.processed).of_returns ⟨hgone, rfl⟩ hrun).1
        rcases (triple_tick_going husual).of_returns hstart hrun with hsame | ⟨x, hgoing, hgone⟩
        · have hnone : t.processed.drop k.site.processed.length = [] := by
            rw [hsame.processed]
            exact List.drop_length
          rw [hnone]
          refine ⟨hsame.sound, hsame.carrying, fun entry hentry => ?_, fun y hy => ?_⟩
          · rw [finishedIn, List.filter_nil, List.map_nil, List.append_nil] at hentry
            exact hold entry hentry
          · rcases h.kept y hy with hthere | hdone
            · exact Or.inl (hsame.outstanding y hthere nofun)
            · exact Or.inr (List.mem_append_left _ hdone)
        · have hone : t.processed.drop k.site.processed.length = [x] := by
            rw [hgoing.processed]
            exact List.drop_left
          rw [hone]
          refine ⟨hgoing.sound, hgoing.carrying, fun entry hentry => ?_, fun y hy => ?_⟩
          · rcases List.mem_append.mp hentry with hentry | hentry
            · exact hold entry hentry
            · obtain ⟨x', hx', rfl⟩ := List.mem_map.mp hentry
              obtain ⟨hmem, hfin⟩ := List.mem_filter.mp hx'
              obtain rfl := List.mem_singleton.mp hmem
              exact hgone hfin
          · rcases h.kept y hy with hthere | hdone
            · -- the entry that was handed over may be finished now, no other one
              by_cases hfin : finishes around x = true
              · rw [if_pos hfin] at hgoing
                by_cases hid : y.id = x.2
                · right
                  refine List.mem_append_right _ (List.mem_map.mpr ⟨x, ?_, hid.symm⟩)
                  exact List.mem_filter.mpr ⟨List.mem_singleton_self x, hfin⟩
                · exact Or.inl (hgoing.outstanding y hthere fun heq => hid (Option.some.inj heq))
              · rw [if_neg hfin] at hgoing
                exact Or.inl (hgoing.outstanding y hthere nofun)
            · exact Or.inr (List.mem_append_left _ hdone)
  | outside events =>
    cases hstep
    have hst := Site.happen_meanwhile k.site events
    refine ⟨h.sound.meanwhile hst, h.carrying.happen husual,
      fun entry hentry => (h.gone entry hentry).meanwhile hst, fun x hx => ?_⟩
    exact (h.kept x hx).imp_left fun hthere => Outstanding.happen hthere husual

/-- **A tick refines the two-queue policy.**

* Whatever goes on around it, it hands over one entry at most.
* If nobody else does anything, and the process is not to stop, it hands over what the policy
  chooses with the lookup in the database: of `analyses:run` the first undelivered entry, if
  there is one; or else, of its candidates of `songs:prep`, the oldest one of the song waited
  for longest, if there is one; or else the oldest one.
* Over any number of ticks an entry of `songs:prep` that was outstanding is so still, or its
  handler has returned `True`; and no tick hands it over again then. -/
theorem tick_policy (consumerName : ℕ) :
    (∀ (around : Surroundings) (s : Site), ∃ handed, handed.length ≤ 1 ∧
      ((Scheduler.ofConsumer consumerName).tick around s).2.processed = s.processed ++ handed) ∧
    (∀ (around : Surroundings) (db : Database) (s : Site),
      around.oldestWaitingSong = db.oldestWaitingSongId →
      around.Quiet → s.Carrying → s.stopping = false →
      ∃ t, (Scheduler.ofConsumer consumerName).tick around s = (some (policy s.waitingRuns
          (s.candidates consumerName) s.songOf db.oldestWaitingSongId).isSome, t) ∧
        t.processed = s.processed ++ (policy s.waitingRuns (s.candidates consumerName) s.songOf
          db.oldestWaitingSongId).toList) ∧
    ∀ (s : Site), s.Sound → s.Carrying → ∀ (turns : List Turn) (k : Ticking),
      (∀ a ∈ turns, a.Usual) → exec (tickStep consumerName) ⟨s, []⟩ turns = some k →
      (∀ x, (s.stream .songsPrep).Outstanding x →
        (k.site.stream .songsPrep).Outstanding x ∨ x.id ∈ k.finished) ∧
      ∀ entry ∈ k.finished, ∀ around : Surroundings, ∃ handed,
        (StreamName.songsPrep, entry) ∉ handed ∧
        ((Scheduler.ofConsumer consumerName).tick around k.site.again).2.processed
          = k.site.processed ++ handed := by
  refine ⟨fun around s => ?_, fun around db s hlookup hquiet hcarry hrun => ?_,
    fun s hsound hcarry turns k husual hrun => ?_⟩
  · -- one entry at most, whatever goes on meanwhile
    have htick := @triple_tick_handed around consumerName s.processed s
      rfl
    have hone : ∀ t : Site, t.processed = s.processed ∨ (∃ x, t.processed = s.processed ++ [x]) →
        ∃ handed : List (StreamName × ℕ), handed.length ≤ 1 ∧
          t.processed = s.processed ++ handed := by
      rintro t (hsame | ⟨x, hx⟩)
      · exact ⟨[], Nat.zero_le _, hsame.trans (List.append_nil _).symm⟩
      · exact ⟨[x], le_rfl, hx⟩
    generalize (Scheduler.ofConsumer consumerName).tick around s = r at htick
    obtain ⟨_ | found, t⟩ := r
    · exact hone t htick
    · exact hone t (htick.imp_right And.right)
  · -- by the policy, where nothing goes on meanwhile
    obtain ⟨found, t, ht, hfound, hprocessed⟩ :=
      (@triple_tick_chosen _ _ consumerName hquiet.events hcarry hrun).total
        (Scheduler.uncut_tick hquiet.lives _) (rfl : s.Is s)
    rw [hlookup] at hfound hprocessed
    exact ⟨t, hfound ▸ ht, hprocessed⟩
  · -- over a whole run
    have hgood : k.Good s := by
      have hmeets : Meets (tickStep consumerName) (fun _ a => True ∧ a.Usual) ⟨s, []⟩ turns :=
        meets_and (meets_of_forall fun _ _ => trivial) husual
      exact invariant (Ticking.Good s) (fun _ _ _ h hcond hstep => h.step hcond.2 hstep)
        ⟨hsound, hcarry, fun _ h => absurd h List.not_mem_nil, fun _ hx => Or.inl hx⟩ hmeets hrun
    refine ⟨hgood.kept, fun entry hentry around => ?_⟩
    have hgone : k.site.again.Gone entry :=
      ⟨(hgood.gone entry hentry).entries, (hgood.gone entry hentry).le⟩
    have htick := @triple_tick_gone around consumerName entry
      k.site.processed k.site.again ⟨hgone, rfl⟩
    generalize (Scheduler.ofConsumer consumerName).tick around k.site.again = r at htick
    obtain ⟨_ | found, t⟩ := r
    · exact htick.2
    · exact htick.2

/-- If every row of `songs:prep` is this consumer's, and all that waits fits into a batch, the
candidates are all that waits. -/
theorem candidates_eq_waitingPreps
    (hown : ∀ d ∈ (s.stream .songsPrep).pending, d.consumer = consumerName)
    (hfits : s.waitingPreps.length ≤ reclaimBatchSize) :
    s.candidates consumerName = s.waitingPreps := by
  have hall : ((s.stream .songsPrep).pending.filter fun d => d.consumer = consumerName)
      = (s.stream .songsPrep).pending :=
    List.filter_eq_self.mpr fun d hd => decide_eq_true (hown d hd)
  unfold Site.waitingPreps at hfits
  rw [List.length_append, List.length_map, List.length_map] at hfits
  unfold Site.candidates Site.waitingPreps
  have hnew : (s.stream .songsPrep).newEntries reclaimBatchSize
      = (s.stream .songsPrep).undelivered := List.take_of_length_le (by omega)
  rw [hall, hnew]
  refine List.take_of_length_le ?_
  rw [List.length_append, List.length_map, List.length_map]
  exact hfits

/-- An analysis waits for song 1. -/
def oneWaits : Database :=
  Database.create 5 0 1 .waitingForReference .clean 0 {}

/-- Song 0 is published before song 1. -/
def twoSongs : Site :=
  Site.happen {} [.publish .songsPrep (some 0), .publish .songsPrep (some 1)]

/-- The tick hands over the entry of song 1, and the next one the other entry. -/
theorem tick_policy_twoSongs :
    (∃ t, (Scheduler.ofConsumer 0).tick { oldestWaitingSong := some 1 } twoSongs
        = (some true, t) ∧ t.processed = [(.songsPrep, 2)]) ∧
      ∃ k, exec (tickStep 0) ⟨twoSongs, []⟩
          [.tick { oldestWaitingSong := some 1 }, .tick {}] = some k ∧ k.finished = [2, 1] ∧
        ∀ x, (twoSongs.stream .songsPrep).Outstanding x →
          (k.site.stream .songsPrep).Outstanding x ∨ x.id ∈ [2, 1] := by
  have hcarry : twoSongs.Carrying := by
    refine ⟨fun name => ?_, by decide⟩
    cases name <;> decide
  have hsound : twoSongs.Sound :=
    Site.Sound.empty.meanwhile (Site.happen_meanwhile _ _)
  obtain ⟨-, hquiet, hruns⟩ := tick_policy 0
  have hrun : (exec (tickStep 0) ⟨twoSongs, []⟩
      [.tick { oldestWaitingSong := some 1 }, .tick {}]).map Ticking.finished = some [2, 1] := by
    decide +kernel
  obtain ⟨k, hk, hfinished⟩ := Option.map_eq_some_iff.mp hrun
  refine ⟨hquiet { oldestWaitingSong := some 1 } oneWaits twoSongs (by decide +kernel) ⟨rfl, rfl⟩
    hcarry rfl, k, hk, hfinished, ?_⟩
  rw [← hfinished]
  refine (hruns twoSongs hsound hcarry _ k ?_ hk).1
  intro a ha
  rcases List.mem_cons.mp ha with rfl | ha
  · exact fun _ _ h => absurd h List.not_mem_nil
  · rw [List.mem_singleton.mp ha]
    exact fun _ _ h => absurd h List.not_mem_nil

/-- An entry is pending for a worker that is gone, and a second one is published. -/
def leftBehind : Site :=
  ((Site.happen {} [.publish .songsPrep (some 0)]).claimed 1).happen [.publish .songsPrep (some 1)]

/-- The policy for all that waits chooses the entry of the worker that is gone, the oldest one;
the tick of another worker hands over the second. -/
theorem not_forall_policy :
    ¬ ∀ (consumerName : ℕ) (around : Surroundings) (db : Database) (s : Site),
      around.oldestWaitingSong = db.oldestWaitingSongId → s.Sound → around.Quiet → s.Carrying →
      s.stopping = false → ((Scheduler.ofConsumer consumerName).tick around s).2.processed =
        s.processed ++ (policy s.waitingRuns s.waitingPreps s.songOf
          db.oldestWaitingSongId).toList := by
  intro h
  have hcarry : leftBehind.Carrying := by
    refine ⟨fun name => ?_, by decide⟩
    cases name <;> decide
  have hclaimed : (Site.claimed 1 (Site.happen {} [.publish .songsPrep (some 0)])).Sound :=
    (Site.Sound.respects {} (.songsPrep 1)).xreadgroup _ 1 reclaimBatchSize
      (Site.Sound.empty.meanwhile (Site.happen_meanwhile _ _))
  have hsound : leftBehind.Sound := hclaimed.meanwhile (Site.happen_meanwhile _ _)
  have hpolicy := h 0 {} {} leftBehind rfl hsound ⟨rfl, rfl⟩ hcarry rfl
  exact absurd hpolicy (by decide +kernel)

end VocalCoach
