/-
# Waiting analyses and the entry that wakes them

An analysis of a song that is not ready waits for the worker, which wakes or fails the
waiting analyses of a song once, when it settles the song.  The API decides that an
analysis has to wait long before the row says so, so the row may come too late.

`Ahead` is an outstanding `songs:prep` entry whose handler has yet to look at the waiting
analyses; `waiting_noneStranded` is the condition under which every waiting analysis of a
settled song has one.
-/
import VocalCoach.PrepJobs

namespace VocalCoach

open RedisStream Machine

variable {cfg : Config} {w w' : World} {a : Action} {e : Effect}

/-! ## What is promised to a waiting analysis -/

/-- Nothing more is to be expected of the preparation of the song. -/
def Song.settled (t : Song) : Bool := t.prepStatus = .ready ∨ t.prepStatus = .failed

theorem Song.settled_iff {t : Song} :
    t.settled ↔ t.prepStatus = .ready ∨ t.prepStatus = .failed := by
  simp [Song.settled]

/-- A waiting analysis of a settled song has a `songs:prep` entry of the song that is
pending or being processed. -/
def NoneStranded (w : World) : Prop :=
  ∀ r ∈ w.db.analyses, r.status = .waitingForReference →
    ∀ t ∈ w.db.songs, t.id = r.songId → t.settled →
      ∃ x ∈ w.prep.entries, w.prep.Outstanding x ∧ x.fields = t.id

instance (w : World) : Decidable (NoneStranded w) :=
  inferInstanceAs (Decidable (∀ r ∈ _, _))

/-- An outstanding entry of the song whose waiting analyses the worker has yet to look at. -/
def Ahead (prep : Stream SongId) (worker : Worker) (songId : SongId) : Prop :=
  ∃ x ∈ prep.entries, prep.Outstanding x ∧ x.fields = songId ∧ worker.past ≠ some x.id

instance (prep : Stream SongId) (worker : Worker) (songId : SongId) :
    Decidable (Ahead prep worker songId) :=
  inferInstanceAs (Decidable (∃ x ∈ _, _))

/-- The song whose waiting analyses an action of the API adds one to. -/
def World.entersWaiting (w : World) : Action → Option SongId
  | .advance (.enqueueCreate _ songId _ false) => some songId
  | .advance (.retryWaiting _ id) => (w.db.analysis id).map Analysis.songId
  | _ => none

/-- An analysis starts to wait only while its song is unsettled or an entry is ahead, and
an exception leaves no waiting analysis behind when the worker gives up on its song. -/
def WaitsInTime (w : World) (a : Action) : Prop :=
  (∀ songId ∈ w.entersWaiting a, ∀ t ∈ w.db.songs, t.id = songId → t.settled →
      Ahead w.prep w.worker songId) ∧
    (a = .raise → ∀ x ∈ w.worker.givingUp, ∀ t ∈ w.db.songs, t.id = x.fields → t.settled →
      ∀ r ∈ w.db.analyses, r.waitingFor x.fields → Ahead w.prep (.prepAck x.id) x.fields)

instance (w : World) (a : Action) : Decidable (WaitsInTime w a) :=
  inferInstanceAs (Decidable (_ ∧ _))

/-! ## One step -/

theorem Worker.givingUp_prepJob {worker : Worker} {x : Entry SongId}
    (h : worker.givingUp = some x) : worker.prepJob = some x := by
  unfold Worker.givingUp at h
  split at h <;> cases h <;> rfl

/-- An exception while the worker gives up is swallowed: the entry is removed. -/
theorem raise_givingUp {x : Entry SongId} (hstep : step cfg w .raise = some w')
    (hx : w.worker.givingUp = some x) : w'.prep = w.prep ∧ w'.worker = .prepAck x.id := by
  rcases step_cases hstep with hlife | ⟨e, hplan, rfl⟩
  · cases hlife
  · obtain ⟨worker, hworker, rfl⟩ := Option.map_eq_some_iff.mp hplan
    generalize w.worker = before at hworker hx
    refine ⟨rfl, ?_⟩
    unfold Worker.givingUp at hx
    split at hx <;> cases hx <;> cases hworker <;> rfl

/-- **An entry ahead stays ahead**, or the waiting analyses of its song are dealt with, or
the worker gives up on it without recording that. -/
theorem Ahead.step {songId : SongId} (hprep : PrepSound w) (h : Ahead w.prep w.worker songId)
    (hstep : step cfg w a = some w') :
    Ahead w'.prep w'.worker songId ∨
      (∃ e s, plan cfg w a = some e ∧ e.statement = some s ∧
        (s = .wakeWaitingForReference songId ∨
          ∃ errorCode, s = .failWaitingForReference songId errorCode)) ∨
      (a = .raise ∧ ∃ x, w.worker.givingUp = some x ∧ x.fields = songId) := by
  obtain ⟨x, hx, hout, rfl, hpast⟩ := h
  rcases step_unmarked (fun _ => rfl) (fun _ => rfl) rfl rfl hprep hstep hout
    hpast with ⟨hout', hpast'⟩ | ⟨e, hplan, hpast'⟩
  · exact Or.inl ⟨x, hout'.1, hout', rfl, hpast'⟩
  · rcases plan_past hplan hpast' with hold | ⟨s, statement, hjob, hs, hkind⟩ |
      ⟨hraise, s, hgiving⟩ | hgone
    · exact absurd hold hpast
    · obtain rfl := hprep.fields_eq hx hjob
      exact Or.inr (Or.inl ⟨e, statement, hplan, hs, hkind⟩)
    · exact Or.inr (Or.inr ⟨hraise, _, hgiving,
        hprep.fields_eq hx (Worker.givingUp_prepJob hgiving)⟩)
    · exact absurd rfl (Stream.ne_of_xrange hgone hx)

/-- Only the API makes analyses wait. -/
theorem waiting_of_step (hsound : w.Sound) (hstep : step cfg w a = some w') {r : Analysis}
    (hr : r ∈ w'.db.analyses) (hwait : r.status = .waitingForReference) :
    (∃ b ∈ w.db.analyses, b.songId = r.songId ∧ b.status = .waitingForReference) ∨
      w.entersWaiting a = some r.songId := by
  rcases step_row hstep hr with hr | ⟨e, s, hplan, hs, ⟨b, hb, hbr⟩ | hins⟩
  · exact Or.inl ⟨r, hr, rfl, hwait⟩
  · have hsong := (onRow_identity hbr).2.2.1
    rcases onRow_status hbr with hsame | hmove
    · exact Or.inl ⟨b, hb, hsong.symm, hsame ▸ hwait⟩
    · rw [hwait] at hmove
      cases hmove with
      | @retryToWaitingForReference id userId _ hguard =>
        have hrow := hsound.db.analysis_eq_some.mpr ⟨hb, (Analysis.retryable_iff.mp hguard).1⟩
        cases plan_apiStatement hplan hs rfl
        exact Or.inr (by simp only [World.entersWaiting, hrow, Option.map_some, hsong])
  · cases s <;> simp only [Statement.inserted, List.mem_singleton, List.not_mem_nil] at hins
    subst hins
    cases plan_apiStatement hplan hs rfl
    · cases hwait
    · exact Or.inr rfl

/-- Waking or failing the waiting analyses of a song leaves none. -/
theorem not_waiting_of_run {s : Statement} {songId : SongId} {now : Time} {db : Database}
    (hs : s = .wakeWaitingForReference songId ∨
      ∃ errorCode, s = .failWaitingForReference songId errorCode)
    {r : Analysis} (hr : r ∈ (s.run now db).analyses) (hsong : r.songId = songId) :
    r.status ≠ .waitingForReference := by
  intro hwait
  rcases mem_run.mp hr with ⟨b, -, hbr⟩ | hins
  · have hb : b.songId = songId := (onRow_identity hbr).2.2.1 ▸ hsong
    rcases onRow_status hbr with hsame | hmove
    · -- the status did not change, so `b` waited too and was moved
      have hguard : b.waitingFor songId := Analysis.waitingFor_iff.mpr ⟨hb, hsame ▸ hwait⟩
      rcases hs with rfl | ⟨errorCode, rfl⟩
      · simp only [Statement.onRow, hguard, if_true, Option.some.injEq] at hbr
        rw [← hbr] at hwait
        revert hwait
        split_ifs <;> simp [Analysis.woken, Analysis.atPosition]
      · simp only [Statement.onRow, hguard, if_true, Option.some.injEq] at hbr
        rw [← hbr] at hwait
        cases hwait
    · rw [hwait] at hmove
      rcases hs with rfl | ⟨errorCode, rfl⟩ <;> cases hmove
  · rcases hs with rfl | ⟨errorCode, rfl⟩ <;> cases hins

/-- The song whose outcome the worker is about to record. -/
def Worker.recording : Worker → Option SongId
  | .prepReady _ songId | .prepFail _ songId _ _ => some songId
  | _ => none

/-- The statement that settles a song comes from the worker, with the entry in hand. -/
theorem plan_settles (h : plan cfg w a = some e) {s : Statement} (hs : e.statement = some s)
    {b : Song} {status : SongPrepStatus} (hmove : SongMoves s b status)
    (hsettled : status = .ready ∨ status = .failed) :
    a = .work ∧ w.worker.recording = some b.id ∧
      ∃ entry, e.worker.prepJob = some ⟨entry, b.id⟩ ∧ e.worker.past = none := by
  rcases plan_songWrites h hs hmove with ⟨-, rfl⟩ | hwrites
  · rcases hsettled with hsettled | hsettled <;> cases hsettled
  have hapi : a.ofApi = false := by
    rw [plan_ofApi h hs, hwrites.ofWorker]
    rfl
  have hwork := plan_move h hapi
  generalize w.worker = worker at hwrites hwork
  cases hmove with
  | retryPrep => cases hwrites
  | markPrepProcessing => rcases hsettled with hsettled | hsettled <;> cases hsettled
  | markPrepReady hid =>
    cases hwrites
    cases hwork <;> cases hs
    exact ⟨rfl, by rw [hid]; rfl, _, by rw [hid]; rfl, rfl⟩
  | markPrepFailed hid =>
    cases hwrites
    cases hwork <;> cases hs
    exact ⟨rfl, by rw [hid]; rfl, _, by rw [hid]; rfl, rfl⟩

/-- A song is settled by the worker, which then holds its entry and has yet to look at the
waiting analyses. -/
theorem settled_of_step (hstep : step cfg w a = some w') {t : Song} (ht : t ∈ w'.db.songs)
    (hsettled : t.settled) :
    (∃ b ∈ w.db.songs, b.id = t.id ∧ b.settled) ∨
      a = .work ∧ w.worker.recording = some t.id ∧
        ∃ entry, w'.worker.prepJob = some ⟨entry, t.id⟩ ∧ w'.worker.past = none := by
  rcases step_song hstep ht with ht | ⟨e, s, hplan, hs, ⟨b, hb, hbt⟩ | hins⟩
  · exact Or.inl ⟨t, ht, rfl, hsettled⟩
  · have hid := onSong_id hbt
    rcases onSong_status hbt with hsame | hmove
    · refine Or.inl ⟨b, hb, hid.symm, ?_⟩
      simpa [Song.settled, hsame] using hsettled
    · refine Or.inr ?_
      rw [Song.settled_iff] at hsettled
      rw [step_eq_apply hstep hplan, hid]
      generalize t.prepStatus = status at hmove hsettled
      exact plan_settles hplan hs hmove hsettled
  · obtain ⟨rfl, -⟩ := plan_insertedSongs hplan hs hins
    cases hsettled

/-! ## The condition, step by step -/

/-- Every waiting analysis of a settled song has an entry ahead. -/
structure WaitingCovered (w : World) : Prop where
  sound : w.Sound
  prep : PrepSound w
  ahead : ∀ r ∈ w.db.analyses, r.status = .waitingForReference →
    ∀ t ∈ w.db.songs, t.id = r.songId → t.settled → Ahead w.prep w.worker t.id

theorem WaitingCovered.empty : WaitingCovered {} :=
  ⟨World.Sound.empty, PrepSound.empty, by simp⟩

theorem WaitingCovered.step (h : WaitingCovered w) (hcond : WaitsInTime w a)
    (hstep : step cfg w a = some w') : WaitingCovered w' := by
  have hprep := h.prep.step hstep
  refine ⟨h.sound.step hstep, hprep, fun r hr hwait t ht hid hsettled => ?_⟩
  have hrow := waiting_of_step h.sound hstep hr hwait
  rcases settled_of_step hstep ht hsettled with ⟨b, hb, hbid, hbs⟩ | ⟨-, -, entry, hjob, hpast⟩
  · -- the song was settled before the step, so an entry was ahead
    have hahead : Ahead w.prep w.worker t.id := by
      rcases hrow with ⟨r₀, hr₀, hsong, hwait₀⟩ | henters
      · rw [← hbid]
        exact h.ahead r₀ hr₀ hwait₀ b hb (hbid.trans (hid.trans hsong.symm)) hbs
      · rw [hid]
        exact hcond.1 r.songId henters b hb (hbid.trans hid) hbs
    rcases hahead.step h.prep hstep with hahead | ⟨e, s, hplan, hs, hkind⟩ | ⟨rfl, x, hx, hxid⟩
    · exact hahead
    · rw [step_eq_apply hstep hplan] at hr
      simp only [World.apply, hs, Option.elim_some] at hr
      exact absurd hwait (not_waiting_of_run hkind hr hid.symm)
    · rcases hrow with ⟨r₀, hr₀, hsong, hwait₀⟩ | henters
      · obtain ⟨hsame, hworker⟩ := raise_givingUp hstep hx
        rw [hsame, hworker, ← hxid]
        refine hcond.2 rfl x hx b hb (hbid.trans hxid.symm) hbs r₀ hr₀ ?_
        exact Analysis.waitingFor_iff.mpr ⟨hsong.trans (hid.symm.trans hxid.symm), hwait₀⟩
      · cases henters
  · have hout := hprep.handled _ hjob
    exact ⟨_, hout.1, hout, rfl, by simp [hpast]⟩

/-! ## Reads that hold until the write -/

/-- The worker settles no song that a request in flight has read to be unsettled, and no
exception hits it while it gives up. -/
def SettlesApart (w : World) (a : Action) : Prop :=
  (a = .work → ∀ songId ∈ w.worker.recording, ∀ c ∈ w.calls,
      w.entersWaiting (.advance c) ≠ some songId) ∧
    (a = .raise → w.worker.givingUp = none)

instance (w : World) (a : Action) : Decidable (SettlesApart w a) :=
  inferInstanceAs (Decidable (_ ∧ _))

/-- The analysis that a retry has read and is to put back. -/
def Call.retries : Call → Option AnalysisId
  | .retrySong _ id _ | .retryWaiting _ id => some id
  | _ => none

/-- What a request that has just come to a call has read, where it is to write that an
analysis waits. -/
inductive HasRead (w : World) : Call → Prop
  | enqueue {userId songId mode song} (hsong : w.db.song songId = some song)
      (hunsettled : ¬ song.settled) : HasRead w (.enqueueCreate userId songId mode false)
  | retry {userId id r} (hr : w.db.analysis id = some r) :
      HasRead w (.retrySong userId id r.songId)
  | retrySong {userId id songId song} (hcall : .retrySong userId id songId ∈ w.calls)
      (hsong : w.db.song songId = some song) (hunsettled : ¬ song.settled) :
      HasRead w (.retryWaiting userId id)
  | other {c} (hretries : c.retries = none)
      (henters : ∀ v : World, v.entersWaiting (.advance c) = none) : HasRead w c

theorem Song.not_settled {t : Song} (hfailed : t.prepStatus ≠ .failed)
    (hready : ¬ t.readyForAnalysis) : ¬ t.settled := by
  intro hsettled
  rcases Song.settled_iff.mp hsettled with h | h
  · exact hready (by simp [Song.readyForAnalysis, h])
  · exact hfailed h

/-- A call a request has come to, in front of those there before. -/
theorem HasRead.of_cons {c c₀ : Call} {rest : List Call} (hrest : rest ⊆ w.calls)
    (hread : HasRead w c₀) (hc : c ∈ c₀ :: rest) : c ∈ w.calls ∨ HasRead w c := by
  rcases List.mem_cons.mp hc with rfl | hc
  · exact Or.inr hread
  · exact Or.inl (hrest hc)

theorem Request.plan_hasRead {r : Request} {c : Call} (hc : c ∈ (r.plan cfg w).calls) :
    c ∈ w.calls ∨ HasRead w c := by
  have hmove : RequestMove cfg w r (r.plan cfg w) := r.plan_move
  cases r with
  | enqueue userId songId mode =>
    unfold Request.plan at hc
    dsimp only at hc
    split at hc
    · exact Or.inl hc
    · rename_i song hsong
      split_ifs at hc with hfailed hready
      · exact Or.inl hc
      · exact HasRead.of_cons (List.Subset.refl _) (.other rfl fun _ => rfl) hc
      · have hread : HasRead w (.enqueueCreate userId songId mode false) :=
          .enqueue hsong (Song.not_settled hfailed hready)
        exact HasRead.of_cons (List.Subset.refl _) hread hc
  | retry userId id =>
    generalize Request.plan cfg w (.retry userId id) = e at hmove hc
    cases hmove with
    | refused => exact Or.inl hc
    | retry hr => exact HasRead.of_cons (List.Subset.refl _) (.retry hr) hc
  | cancel | addSong | retryPrep =>
    generalize Request.plan cfg w _ = e at hmove hc
    cases hmove <;> first
      | exact Or.inl hc
      | exact HasRead.of_cons (List.Subset.refl _) (.other rfl fun _ => rfl) hc

theorem Call.plan_hasRead {c₀ c : Call} {rest : List Call} (hc₀ : c₀ ∈ w.calls)
    (hrest : rest ⊆ w.calls) (hc : c ∈ (c₀.plan cfg w rest).calls) :
    c ∈ w.calls ∨ HasRead w c := by
  have hmove : CallMove cfg w rest c₀ (c₀.plan cfg w rest) := c₀.plan_move rest
  cases c₀ with
  | retrySong userId id songId =>
    unfold Call.plan at hc
    dsimp only at hc
    split at hc
    · exact Or.inl (hrest hc)
    · rename_i song hsong
      split_ifs at hc with hfailed hready
      · exact Or.inl (hrest hc)
      · exact HasRead.of_cons hrest (.other rfl fun _ => rfl) hc
      · exact HasRead.of_cons hrest (.retrySong hc₀ hsong (Song.not_settled hfailed hready)) hc
  | _ =>
    generalize Call.plan cfg w rest _ = e at hmove hc
    cases hmove
    all_goals first
      | exact Or.inl (hrest hc)
      | exact HasRead.of_cons hrest (.other rfl fun _ => rfl) hc

theorem plan_hasRead (h : plan cfg w a = some e) {c : Call} (hc : c ∈ e.calls) :
    c ∈ w.calls ∨ HasRead w c := by
  by_cases ha : a.ofApi
  · cases a <;> simp only [Action.ofApi, Bool.false_eq_true] at ha <;>
      simp only [plan, Option.some.injEq, Option.ite_none_right_eq_some] at h
    case request r =>
      subst h
      exact Request.plan_hasRead hc
    case advance c₀ =>
      obtain ⟨hc₀, rfl⟩ := h
      exact Call.plan_hasRead hc₀ List.erase_subset hc
    case abort c₀ =>
      obtain ⟨-, rfl⟩ := h
      change c ∈ c₀.onError _ at hc
      cases c₀
      case cancelRemove => exact HasRead.of_cons List.erase_subset (.other rfl fun _ => rfl) hc
      all_goals exact Or.inl (List.erase_subset hc)
  · rw [(plan_move h (by simpa using ha)).calls.1] at hc
    exact Or.inl hc

theorem step_hasRead (hstep : step cfg w a = some w') {c : Call} (hc : c ∈ w'.calls) :
    c ∈ w.calls ∨ HasRead w c := by
  rcases step_cases hstep with hlife | ⟨e, hplan, rfl⟩
  · exact Or.inl ((lifecycle_untouched hlife).calls ▸ hc)
  · exact plan_hasRead hplan hc

/-- A row of an id that was drawn before the step is a row of before. -/
theorem old_row_of_step (hstep : step cfg w a = some w') {r : Analysis}
    (hr : r ∈ w'.db.analyses) (hlt : r.id < w.nextUuid) :
    ∃ b ∈ w.db.analyses, b.id = r.id ∧ b.songId = r.songId := by
  rcases step_row hstep hr with hr | ⟨e, s, hplan, hs, ⟨b, hb, hbr⟩ | hins⟩
  · exact ⟨r, hr, rfl, rfl⟩
  · obtain ⟨hid, -, hsong, -⟩ := onRow_identity hbr
    exact ⟨b, hb, hid.symm, hsong.symm⟩
  · obtain ⟨hid, -⟩ := plan_newId hplan hs (inserted_id hins).1
    exact absurd (hid ▸ hlt) (Nat.lt_irrefl _)

/-- What a request in flight has read of a song still holds. -/
structure ReadsHold (w : World) : Prop where
  sound : w.Sound
  drawn : ∀ c ∈ w.calls, ∀ id ∈ c.retries, id < w.nextUuid
  songs : ∀ userId id songId, .retrySong userId id songId ∈ w.calls →
    ∀ r ∈ w.db.analyses, r.id = id → r.songId = songId
  unsettled : ∀ c ∈ w.calls, ∀ songId ∈ w.entersWaiting (.advance c),
    ∀ t ∈ w.db.songs, t.id = songId → ¬ t.settled

theorem ReadsHold.empty : ReadsHold {} := ⟨World.Sound.empty, by simp, by simp, by simp⟩

theorem World.Sound.of_song (h : w.Sound) {songId : SongId} {song t : Song}
    (hsong : w.db.song songId = some song) (ht : t ∈ w.db.songs) (hid : t.id = songId) :
    t = song := by
  have hmem := List.mem_of_find?_eq_some hsong
  have hsongId := List.find?_some hsong
  exact h.eq_of_songId ht hmem (hid.trans (of_decide_eq_true hsongId).symm)

/-- Which song a request in flight is to make wait for is settled when it has read the row. -/
theorem ReadsHold.entersWaiting_of_step (h : ReadsHold w) (hstep : step cfg w a = some w')
    {c : Call} (hc : c ∈ w.calls) {songId : SongId}
    (henters : w'.entersWaiting (.advance c) = some songId) :
    w.entersWaiting (.advance c) = some songId := by
  cases c
  case retryWaiting userId id =>
    obtain ⟨r, hrow, rfl⟩ := Option.map_eq_some_iff.mp henters
    obtain ⟨hr, rfl⟩ := (h.sound.step hstep).db.analysis_eq_some.mp hrow
    obtain ⟨b, hb, hid, hsong⟩ := old_row_of_step hstep hr (h.drawn _ hc _ rfl)
    exact Option.map_eq_some_iff.mpr ⟨b, h.sound.db.analysis_eq_some.mpr ⟨hb, hid⟩, hsong⟩
  case enqueueCreate userId song mode songReady => cases songReady <;> exact henters
  all_goals exact henters

/-- The song that an analysis is to wait for was unsettled before the step. -/
theorem ReadsHold.unsettled_before (h : ReadsHold w) (hstep : step cfg w a = some w') {c : Call}
    (hc : c ∈ w'.calls) {songId : SongId}
    (henters : w'.entersWaiting (.advance c) = some songId) {t : Song} (ht : t ∈ w.db.songs)
    (hid : t.id = songId) : ¬ t.settled := by
  rcases step_hasRead hstep hc with hc | hread
  · exact h.unsettled c hc songId (h.entersWaiting_of_step hstep hc henters) t ht hid
  cases hread with
  | enqueue hsong hunsettled =>
    cases henters
    rw [h.sound.of_song hsong ht hid]
    exact hunsettled
  | retry => cases henters
  | retrySong hcall hsong hunsettled =>
    obtain ⟨r, hr, rfl⟩ := Option.map_eq_some_iff.mp henters
    obtain ⟨hr, hrid⟩ := (h.sound.step hstep).db.analysis_eq_some.mp hr
    obtain ⟨b, hb, hbid, hbsong⟩ :=
      old_row_of_step hstep hr (hrid ▸ h.drawn _ hcall _ rfl)
    have hsame := h.songs _ _ _ hcall b hb (hbid.trans hrid)
    rw [h.sound.of_song hsong ht (hid.trans (hbsong.symm.trans hsame))]
    exact hunsettled
  | other _ hnone =>
    rw [hnone] at henters
    cases henters

theorem ReadsHold.step (h : ReadsHold w) (hcond : SettlesApart w a)
    (hstep : step cfg w a = some w') : ReadsHold w' where
  sound := h.sound.step hstep
  drawn c hc id hid := by
    refine Nat.lt_of_lt_of_le ?_ (step_nextUuid hstep)
    rcases step_hasRead hstep hc with hc | hread
    · exact h.drawn c hc id hid
    · cases hread with
      | enqueue => cases hid
      | retry hr =>
        cases hid
        obtain ⟨hmem, rfl⟩ := h.sound.db.analysis_eq_some.mp hr
        exact h.sound.fresh _ hmem
      | retrySong hcall =>
        cases hid
        exact h.drawn _ hcall _ rfl
      | other hnone =>
        rw [hnone] at hid
        cases hid
  songs userId id songId hc r hr hid := by
    rcases step_hasRead hstep hc with hold | hread
    · obtain ⟨b, hb, hbid, hsong⟩ := old_row_of_step hstep hr (hid ▸ h.drawn _ hold _ rfl)
      exact hsong.symm.trans (h.songs _ _ _ hold b hb (hbid.trans hid))
    · cases hread with
      | retry hb =>
        obtain ⟨hb, hbid⟩ := h.sound.db.analysis_eq_some.mp hb
        obtain ⟨c, hc, hcid, hsong⟩ :=
          old_row_of_step hstep hr (hid.trans hbid.symm ▸ h.sound.fresh _ hb)
        rw [← hsong, h.sound.db.eq_of_id hc hb (hcid.trans (hid.trans hbid.symm))]
      | other hnone => cases hnone
  unsettled c hc songId henters t ht hid hsettled := by
    rcases settled_of_step hstep ht hsettled with ⟨b, hb, hbid, hbs⟩ | ⟨rfl, hrecording, -⟩
    · exact h.unsettled_before hstep hc henters hb (hbid.trans hid) hbs
    · -- the worker moves no request
      have hold : c ∈ w.calls := by
        rcases step_cases hstep with hlife | ⟨e, hplan, rfl⟩
        · cases hlife
        · exact (plan_move hplan rfl).calls.1 ▸ hc
      rw [hid] at hrecording
      exact hcond.1 rfl songId hrecording c hold (h.entersWaiting_of_step hstep hold henters)

theorem waitsInTime_of_readsHold (h : ReadsHold w) (hcond : SettlesApart w a)
    (hstep : step cfg w a = some w') : WaitsInTime w a := by
  constructor
  · intro songId henters t ht hid hsettled
    cases a with
    | advance c =>
      have hc : c ∈ w.calls := by
        rcases step_cases hstep with hlife | ⟨e, hplan, -⟩
        · cases hlife
        · cases plan_apiMove hplan rfl with
          | advance hc => exact hc
      exact absurd hsettled (h.unsettled c hc songId henters t ht hid)
    | _ => cases henters
  · intro hraise x hx
    rw [hcond.2 hraise] at hx
    cases hx

/-! ## Every run -/

/-- **When no wake-up is lost.**  In every run from the empty system in which an analysis
starts to wait only while its song is unsettled or an entry of the song is ahead of its
waiting analyses, no state has a waiting analysis of a settled song without an entry of
the song that is pending or being processed; and so it is in every run in which no song is
settled between a request's read of it and its write. -/
theorem waiting_noneStranded (cfg : Config) (actions : List Action) :
    (Meets (step cfg) SettlesApart {} actions → Meets (step cfg) WaitsInTime {} actions) ∧
      ∀ w, Meets (step cfg) WaitsInTime {} actions → exec (step cfg) {} actions = some w →
        NoneStranded w := by
  refine ⟨meets_of_invariant ReadsHold (fun s a s' h hcond hs => h.step hcond hs)
    (fun s a s' h hcond hs => waitsInTime_of_readsHold h hcond hs) ReadsHold.empty, ?_⟩
  intro w hmeets hrun
  have hcovered : WaitingCovered w :=
    invariant WaitingCovered (fun s a s' h hcond hs => h.step hcond hs) WaitingCovered.empty hmeets
      hrun
  intro r hr hwait t ht hid hsettled
  obtain ⟨x, hx, hout, hfields, -⟩ := hcovered.ahead r hr hwait t ht hid hsettled
  exact ⟨x, hx, hout, hfields⟩

/-! ## Two runs -/

/-- An analysis waits while its song is prepared, and the song is ready before it is woken. -/
def waitsForFirstSong : List Action := startsFirstSong ++ enqueuesWaiting 7 0 ++ readiesFirstSong

def readyWithWaiting : World :=
  (exec (step defaultConfig) {} waitsForFirstSong).get (by decide +kernel)

theorem waiting_noneStranded_waitsForFirstSong : NoneStranded readyWithWaiting :=
  have h := waiting_noneStranded defaultConfig waitsForFirstSong
  h.2 readyWithWaiting (h.1 (by decide +kernel)) (Option.some_get _).symm

/-- `Enqueue` reads that the song is not ready, the worker readies it, wakes nobody and
acknowledges the entry, and then `Create` inserts the waiting row. -/
def waitsTooLate : List Action :=
  startsFirstSong ++ [.request (.enqueue 7 0 .clean)] ++ readiesFirstSong ++ finishesFirstSong ++
    [.advance (.enqueueCreate 7 0 .clean false)]

/-- The row waits for ever: every operation is over. -/
theorem not_forall_noneStranded :
    ¬ ∀ (actions : List Action) (w : World), exec (step defaultConfig) {} actions = some w →
      w.calls = [] → w.worker = .idle → NoneStranded w := by
  intro h
  have hrun : (exec (step defaultConfig) {} waitsTooLate).map (fun w =>
      decide (w.calls = [] ∧ w.worker = .idle ∧ ¬ NoneStranded w)) = some true := by
    decide +kernel
  obtain ⟨w, hw, htrue⟩ := Option.map_eq_some_iff.mp hrun
  obtain ⟨hcalls, hidle, hstranded⟩ := of_decide_eq_true htrue
  exact hstranded (h waitsTooLate w hw hcalls hidle)

end VocalCoach
