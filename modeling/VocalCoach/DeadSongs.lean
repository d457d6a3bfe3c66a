/-
# Songs that stay dead

A row of `songs` that is pending or processing is cared for as long as a request is about to
append its `songs:prep` entry or to delete it, or an entry is outstanding that the worker
has yet to settle (`InHand`).  One step takes that away only by settling the song, by a
request that fails, or by a give-up that is not recorded (`step_inHand`).

`ingest_noneDead` says it of whole runs, together with what becomes of the ids handed out:
between two calls, a row without an entry is one whose entry was lost on the way, and a
song that was returned is gone only if the call that created it rolled it back.
-/
import VocalCoach.SongIngestion
import VocalCoach.WaitingSongs

namespace VocalCoach

open RedisStream Machine

variable {cfg : Config} {w w' : World} {a : Action} {e : Effect} {c c' : Ingestion}

/-! ## Rows are only rolled back -/

/-- **A song stays** until the call that created it rolls it back. -/
theorem song_of_step (hstep : step cfg w a = some w') {t : Song} (ht : t ∈ w.db.songs) :
    (∃ r ∈ w'.db.songs, r.id = t.id) ∨ a = .advance (.songRollBack t.id) := by
  rcases step_cases hstep with hlife | ⟨e, hplan, rfl⟩
  · rw [(lifecycle_untouched hlife).db]
    exact Or.inl ⟨t, ht, rfl⟩
  · cases hs : e.statement with
    | none =>
      simp only [World.apply, hs, Option.elim_none]
      exact Or.inl ⟨t, ht, rfl⟩
    | some s =>
      simp only [World.apply, hs, Option.elim_some]
      cases hrow : s.onSong w.now t with
      | some r => exact Or.inl ⟨r, mem_run_songs.mpr (Or.inl ⟨t, ht, hrow⟩), onSong_id hrow⟩
      | none =>
        -- only `Delete` makes a row disappear
        cases s <;> simp only [Statement.onSong, reduceCtorEq] at hrow
        rename_i songId
        have hid : t.id = songId := by simpa using hrow
        rw [← hid] at hs
        exact Or.inr (plan_deletes hplan hs)

/-- A request that advances is in flight. -/
theorem mem_calls_of_advance {k : Call} (hstep : step cfg w (.advance k) = some w') :
    k ∈ w.calls := by
  rcases step_cases hstep with hlife | ⟨e, hplan, -⟩
  · cases hlife
  · exact (Option.ite_none_right_eq_some.mp hplan).1

/-! ## Requests about to append or delete -/

/-- The song whose `songs:prep` entry or whose deletion a request is about to see to. -/
def Call.prepares : Call → Option SongId
  | .songPublish songId | .songRollBack songId | .prepRetryPublish songId => some songId
  | _ => none

/-- How a request comes to prepare a song. -/
inductive BeginsToPrepare (w : World) : Action → Call → Prop
  | created : BeginsToPrepare w (.request .addSong) (.songPublish w.nextUuid)
  | full {songId} : BeginsToPrepare w (.advance (.songPublish songId)) (.songRollBack songId)
  | restarted {songId} {t : Song} (ht : t ∈ w.db.songs) (hid : t.id = songId)
      (hfailed : t.prepStatus = .failed) :
      BeginsToPrepare w (.advance (.prepRetryUpdate songId)) (.prepRetryPublish songId)

theorem RequestMove.prepares {r : Request} (h : RequestMove cfg w r e) {k : Call}
    {songId : SongId} (hk : k ∈ e.calls) (hprepares : k.prepares = some songId) :
    k ∈ w.calls ∨ BeginsToPrepare w (.request r) k := by
  cases h
  case refused => exact Or.inl hk
  case addSong =>
    rcases List.mem_cons.mp hk with rfl | hk
    · exact Or.inr .created
    · exact Or.inl hk
  all_goals
    rcases List.mem_cons.mp hk with rfl | hk
    · cases hprepares
    · exact Or.inl hk

theorem CallMove.prepares {rest : List Call} {k₀ : Call} (h : CallMove cfg w rest k₀ e) {k : Call}
    {songId : SongId} (hk : k ∈ e.calls) (hprepares : k.prepares = some songId) :
    k ∈ rest ∨ (k₀ = .songPublish songId ∧ k = .songRollBack songId) ∨
      (k₀ = .prepRetryUpdate songId ∧ k = .prepRetryPublish songId) := by
  cases h
  case songPublishFull =>
    rcases List.mem_cons.mp hk with rfl | hk
    · cases hprepares
      exact Or.inr (Or.inl ⟨rfl, rfl⟩)
    · exact Or.inl hk
  case prepRetryUpdate =>
    rcases List.mem_cons.mp hk with rfl | hk
    · cases hprepares
      exact Or.inr (Or.inr ⟨rfl, rfl⟩)
    · exact Or.inl hk
  all_goals first
    | exact Or.inl hk
    | rcases List.mem_cons.mp hk with rfl | hk
      · cases hprepares
      · exact Or.inl hk

/-- `RetryPrep` appends only the entry of a row it has reset. -/
theorem plan_prepRetryUpdate {songId : SongId}
    (h : plan cfg w (.advance (.prepRetryUpdate songId)) = some e)
    (hk : .prepRetryPublish songId ∈ e.calls) :
    .prepRetryPublish songId ∈ w.calls ∨
      BeginsToPrepare w (.advance (.prepRetryUpdate songId)) (.prepRetryPublish songId) := by
  obtain ⟨-, h⟩ := Option.ite_none_right_eq_some.mp h
  cases h
  simp only [Call.plan] at hk
  split_ifs at hk with hany
  · obtain ⟨t, ht, hfailed⟩ := List.any_eq_true.mp hany
    have hfailed : t.id = songId ∧ t.prepStatus = .failed := by simpa using hfailed
    exact Or.inr (.restarted ht hfailed.1 hfailed.2)
  · exact Or.inl (List.mem_of_mem_erase hk)

theorem plan_prepares (h : plan cfg w a = some e) {k : Call} {songId : SongId} (hk : k ∈ e.calls)
    (hprepares : k.prepares = some songId) : k ∈ w.calls ∨ BeginsToPrepare w a k := by
  by_cases ha : a.ofApi
  · cases plan_apiMove h ha with
    | request hmove => exact hmove.prepares hk hprepares
    | advance _ hmove =>
      rcases hmove.prepares hk hprepares with hk | ⟨rfl, rfl⟩ | ⟨rfl, rfl⟩
      · exact Or.inl (List.mem_of_mem_erase hk)
      · exact Or.inr .full
      · exact plan_prepRetryUpdate h hk
    | @abort k₀ _ =>
      have hk : k ∈ k₀.onError (w.calls.erase k₀) := hk
      cases k₀
      case cancelRemove =>
        rcases List.mem_cons.mp hk with rfl | hk
        · cases hprepares
        · exact Or.inl (List.mem_of_mem_erase hk)
      all_goals exact Or.inl (List.mem_of_mem_erase hk)
  · rw [(plan_move h (by simpa using ha)).calls.1] at hk
    exact Or.inl hk

theorem step_prepares (hstep : step cfg w a = some w') {k : Call} {songId : SongId}
    (hk : k ∈ w'.calls) (hprepares : k.prepares = some songId) :
    k ∈ w.calls ∨ BeginsToPrepare w a k := by
  rcases step_cases hstep with hlife | ⟨e, hplan, rfl⟩
  · rw [(lifecycle_untouched hlife).calls] at hk
    exact Or.inl hk
  · exact plan_prepares hplan hk hprepares

/-! ## Entries yet to be settled -/

/-- The entry whose song the worker has settled, or has given up on, or cannot read. -/
def Worker.settling : Worker → Option EntryId
  | .prepFailWaiting entry _ _ _ | .prepWake entry _ | .prepAppend entry _ _ | .prepAck entry
  | .prepDel entry => some entry
  | _ => none

/-- The statements that settle a song. -/
inductive Settles (songId : SongId) : Statement → Prop
  | markPrepReady : Settles songId (.markPrepReady songId)
  | markPrepFailed {errorCode} : Settles songId (.markPrepFailed songId errorCode)

/-- **How the worker comes to settle an entry.** -/
theorem plan_settling {entry : EntryId} (h : plan cfg w a = some e)
    (hsettling : e.worker.settling = some entry) :
    w.worker.settling = some entry ∨
      (∃ songId s, w.worker.prepJob = some ⟨entry, songId⟩ ∧ e.statement = some s ∧
        Settles songId s) ∨
      (a = .raise ∧ ∃ songId, w.worker.prepJob = some ⟨entry, songId⟩ ∧
        w.worker.unrecorded = some songId) ∨
      (w.prep.xrange entry = none ∧ ∃ d ∈ w.prep.pending, d.id = entry) := by
  by_cases ha : a.ofApi
  · rw [plan_worker h ha] at hsettling
    exact Or.inl hsettling
  have hmove := plan_move h (by simpa using ha)
  generalize w.worker = worker at hmove
  cases hmove
  case giveUpPrepGone hd _ hrange =>
    cases hsettling
    obtain ⟨hpending, hid, -⟩ := Stream.mem_of_claimable hd
    exact Or.inr (Or.inr (Or.inr ⟨hrange, _, hpending, hid⟩))
  case markPrepReady =>
    cases hsettling
    exact Or.inr (Or.inl ⟨_, _, rfl, rfl, .markPrepReady⟩)
  case markPrepFailed =>
    cases hsettling
    exact Or.inr (Or.inl ⟨_, _, rfl, rfl, .markPrepFailed⟩)
  case unrecordedPrep =>
    cases hsettling
    exact Or.inr (Or.inr (Or.inl ⟨rfl, _, rfl, rfl⟩))
  all_goals first
    | exact Or.inl hsettling
    | cases hsettling

/-- No entry is settled before it is appended. -/
def World.SettlesOld (w : World) : Prop :=
  ∀ entry, w.worker.settling = some entry → entry ≤ w.prep.lastId

theorem World.SettlesOld.step (h : w.SettlesOld) (hprep : PrepSound w)
    (hstep : step cfg w a = some w') : w'.SettlesOld := by
  intro entry hsettling
  have hlast : w.prep.lastId ≤ w'.prep.lastId := by
    rcases step_prep hstep with hsame | ⟨k, -, hrun⟩
    · rw [hsame]
    · rw [hrun]
      exact k.lastId_le_run w.prep w.now
  refine Nat.le_trans ?_ hlast
  have hjob : ∀ songId, w.worker.prepJob = some ⟨entry, songId⟩ → entry ≤ w.prep.lastId :=
    fun songId hjob => hprep.ordered.entries_le _ (hprep.handled _ hjob).1
  rcases step_cases hstep with hlife | ⟨e, hplan, rfl⟩
  · rcases (lifecycle_untouched hlife).worker with hw | hw | hw <;> rw [hw] at hsettling
    · exact h entry hsettling
    · cases hsettling
    · cases hsettling
  · rcases plan_settling hplan hsettling with hold | ⟨songId, _, hhand, -⟩ |
      ⟨-, songId, hhand, -⟩ | ⟨-, d, hd, rfl⟩
    · exact h entry hold
    · exact hjob songId hhand
    · exact hjob songId hhand
    · exact Nat.le_trans (hprep.ordered.pending_le d hd) hprep.ordered.delivered_le

/-- An outstanding entry of the song that the worker has yet to settle. -/
def Unsettled (prep : Stream SongId) (worker : Worker) (songId : SongId) : Prop :=
  ∃ x ∈ prep.entries, prep.Outstanding x ∧ x.fields = songId ∧ worker.settling ≠ some x.id

/-- **An entry stays to be settled** until the song is, or the worker gives up on it without
recording that. -/
theorem Unsettled.step {songId : SongId} (hprep : PrepSound w)
    (h : Unsettled w.prep w.worker songId) (hstep : step cfg w a = some w') :
    Unsettled w'.prep w'.worker songId ∨
      (∃ e s, plan cfg w a = some e ∧ e.statement = some s ∧ Settles songId s) ∨
      (a = .raise ∧ w.worker.unrecorded = some songId) := by
  obtain ⟨x, hx, hout, rfl, hsettling⟩ := h
  rcases step_unmarked (fun _ => rfl) (fun _ => rfl) rfl rfl hprep hstep hout hsettling with
    ⟨hout', hsettling'⟩ | ⟨e, hplan, hsettling'⟩
  · exact Or.inl ⟨x, hout'.1, hout', rfl, hsettling'⟩
  · rcases plan_settling hplan hsettling' with hold | ⟨s, statement, hjob, hs, hkind⟩ |
      ⟨hraise, s, hjob, hunrecorded⟩ | ⟨hgone, -⟩
    · exact absurd hold hsettling
    · obtain rfl := hprep.fields_eq hx hjob
      exact Or.inr (Or.inl ⟨e, statement, hplan, hs, hkind⟩)
    · obtain rfl := hprep.fields_eq hx hjob
      exact Or.inr (Or.inr ⟨hraise, hunrecorded⟩)
    · exact absurd rfl (Stream.ne_of_xrange hgone hx)

/-- A new entry is yet to be settled. -/
theorem unsettled_xadd {prep : Stream SongId} {worker : Worker} (hprep : prep.Ordered)
    (hold : ∀ entry, worker.settling = some entry → entry ≤ prep.lastId) (songId : SongId) :
    Unsettled (prep.xadd songId) worker songId := by
  have hmem : ⟨prep.lastId + 1, songId⟩ ∈ (prep.xadd songId).entries :=
    List.mem_append_right _ List.mem_cons_self
  refine ⟨_, hmem, ⟨hmem, Or.inl (Nat.lt_succ_of_le hprep.delivered_le)⟩, rfl, fun hsettling => ?_⟩
  exact absurd (hold _ hsettling) (Nat.not_succ_le_self _)

/-! ## Rows that are cared for -/

/-- A request is about to see to the entry or the deletion of the row, or it has an entry
that is yet to be settled. -/
def World.InHand (w : World) (songId : SongId) : Prop :=
  (∃ k ∈ w.calls, k.prepares = some songId) ∨ Unsettled w.prep w.worker songId

/-- The steps by which a row loses its entry. -/
inductive LosesEntry (w : World) (songId : SongId) : Action → Prop
  | request {k : Call} (h : k.prepares = some songId) : LosesEntry w songId (.abort k)
  | giveUp (h : w.worker.unrecorded = some songId) : LosesEntry w songId .raise

/-- A request that sees to a row passes it on to another one or to the stream, or deletes it. -/
theorem inHand_advance {k : Call} {songId : SongId} (hprep : PrepSound w) (hold : w.SettlesOld)
    (hprepares : k.prepares = some songId) (hplan : plan cfg w (.advance k) = some e) :
    (w.apply e).InHand songId ∨ k = .songRollBack songId := by
  obtain ⟨-, hplan⟩ := Option.ite_none_right_eq_some.mp hplan
  cases hplan
  cases k <;> cases hprepares
  case refl.songPublish.refl =>
    simp only [Call.plan]
    split_ifs
    · exact Or.inl (Or.inl ⟨.songRollBack songId, List.mem_cons_self, rfl⟩)
    · exact Or.inl (Or.inr (unsettled_xadd hprep.ordered hold songId))
  case refl.songRollBack.refl => exact Or.inr rfl
  case refl.prepRetryPublish.refl => exact Or.inl (Or.inr (unsettled_xadd hprep.ordered hold songId))

theorem World.InHand.step {songId : SongId} (hprep : PrepSound w) (hold : w.SettlesOld)
    (h : w.InHand songId) (hstep : step cfg w a = some w') :
    w'.InHand songId ∨ LosesEntry w songId a ∨ a = .advance (.songRollBack songId) ∨
      ∃ e s, plan cfg w a = some e ∧ e.statement = some s ∧ Settles songId s := by
  rcases h with ⟨k, hk, hprepares⟩ | hunsettled
  · rcases step_cases hstep with hlife | ⟨e, hplan, rfl⟩
    · exact Or.inl (Or.inl ⟨k, (lifecycle_untouched hlife).calls ▸ hk, hprepares⟩)
    · rcases plan_call hplan hk with hk | rfl | rfl
      · exact Or.inl (Or.inl ⟨k, hk, hprepares⟩)
      · rcases inHand_advance hprep hold hprepares hplan with hhand | rfl
        · exact Or.inl hhand
        · exact Or.inr (Or.inr (Or.inl rfl))
      · exact Or.inr (Or.inl (.request hprepares))
  · rcases hunsettled.step hprep hstep with hunsettled | hsettles | ⟨rfl, hunrecorded⟩
    · exact Or.inl (Or.inr hunsettled)
    · exact Or.inr (Or.inr (Or.inr hsettles))
    · exact Or.inr (Or.inl (.giveUp hunrecorded))

/-- A song is settled by the statements that say so. -/
theorem settled_of_settles {s : Statement} {songId : SongId} (h : Settles songId s) {now : Time}
    {db : Database} {t : Song} (ht : t ∈ (s.run now db).songs) (hid : t.id = songId) :
    t.settled := by
  rcases mem_run_songs.mp ht with ⟨b, -, hbt⟩ | hins
  · have hb : b.id = songId := (onSong_id hbt).symm.trans hid
    rw [Song.settled_iff]
    cases h <;> simp only [Statement.onSong, hb, if_true, Option.some.injEq] at hbt <;> subst hbt
    · exact Or.inl rfl
    · exact Or.inr rfl
  · cases h <;> cases hins

/-- A reset row is about to be enqueued. -/
theorem inHand_restarted {songId : SongId} {b : Song}
    (hplan : plan cfg w (.advance (.prepRetryUpdate songId)) = some e) (hb : b ∈ w.db.songs)
    (hfailed : b.id = songId ∧ b.prepStatus = .failed) : (w.apply e).InHand songId := by
  obtain ⟨-, hplan⟩ := Option.ite_none_right_eq_some.mp hplan
  cases hplan
  have hany : w.db.songs.any fun t => decide (t.id = songId ∧ t.prepStatus = .failed) :=
    List.any_eq_true.mpr ⟨b, hb, decide_eq_true hfailed⟩
  refine Or.inl ⟨.prepRetryPublish songId, ?_, rfl⟩
  simp only [World.apply, Call.plan, hany, if_true]
  exact List.mem_cons_self

/-- A row that is not settled was moved there by a retry or by the worker that handles it. -/
theorem inHand_of_move (hprep : PrepSound (w.apply e)) (hplan : plan cfg w a = some e)
    {s : Statement} (hs : e.statement = some s) {b : Song} {status : SongPrepStatus}
    (hb : b ∈ w.db.songs) (hmove : SongMoves s b status)
    (hstatus : status ≠ .ready ∧ status ≠ .failed) : (w.apply e).InHand b.id := by
  cases hmove with
  | retryPrep hfailed =>
    cases plan_apiStatement hplan hs rfl
    rw [hfailed.1]
    exact inHand_restarted hplan hb hfailed
  | markPrepReady => exact absurd rfl hstatus.1
  | markPrepFailed => exact absurd rfl hstatus.2
  | markPrepProcessing hid =>
    have hwork := plan_move hplan (by rw [plan_ofApi hplan hs]; rfl)
    generalize w.worker = worker at hwork
    cases hwork <;> cases hs
    have hout := hprep.handled ⟨_, b.id⟩ (by rw [hid]; rfl)
    exact Or.inr ⟨_, hout.1, hout, rfl, by simp [World.apply, Worker.settling]⟩

/-- **How a row comes to be unsettled**: it was, or a request or the worker has just taken it
in hand. -/
theorem step_unsettled (hprep : PrepSound w') (hstep : step cfg w a = some w') {t : Song}
    (ht : t ∈ w'.db.songs) (hunsettled : t.settled = false) :
    (∃ b ∈ w.db.songs, b.id = t.id ∧ b.settled = false) ∨ w'.InHand t.id := by
  rcases step_song hstep ht with ht | ⟨e, s, hplan, hs, ⟨b, hb, hbt⟩ | hins⟩
  · exact Or.inl ⟨t, ht, rfl, hunsettled⟩
  · have hid := onSong_id hbt
    rcases onSong_status hbt with hsame | hmove
    · refine Or.inl ⟨b, hb, hid.symm, ?_⟩
      simpa [Song.settled, hsame] using hunsettled
    · rw [step_eq_apply hstep hplan] at hprep ⊢
      rw [hid]
      refine Or.inr (inHand_of_move hprep hplan hs hb hmove ?_)
      simpa [Song.settled] using hunsettled
  · obtain ⟨rfl, -⟩ := plan_insertedSongs hplan hs hins
    obtain rfl := plan_creates hplan hs hins
    rw [step_eq_apply hstep hplan]
    cases hplan
    exact Or.inr (Or.inl ⟨.songPublish w.nextUuid, List.mem_cons_self, rfl⟩)

/-- **How a row that is not settled stops being cared for**: a step loses its entry. -/
theorem step_inHand (hprep : PrepSound w) (hold : w.SettlesOld) (hstep : step cfg w a = some w')
    {t : Song} (ht : t ∈ w'.db.songs) (hunsettled : t.settled = false) :
    w'.InHand t.id ∨ LosesEntry w t.id a ∨
      ∃ b ∈ w.db.songs, b.id = t.id ∧ b.settled = false ∧ ¬ w.InHand t.id := by
  rcases step_unsettled (hprep.step hstep) hstep ht hunsettled with ⟨b, hb, hid, hbs⟩ | hhand
  · by_cases hhand : w.InHand t.id
    · rcases hhand.step hprep hold hstep with hhand | hloses | rfl | ⟨e, s, hplan, hs, hsettles⟩
      · exact Or.inl hhand
      · exact Or.inr (Or.inl hloses)
      · -- the row has just been deleted
        rcases step_cases hstep with hlife | ⟨e, hplan, rfl⟩
        · cases hlife
        · obtain ⟨-, hplan⟩ := Option.ite_none_right_eq_some.mp hplan
          cases hplan
          have hne := (List.mem_filter.mp ht).2
          simp at hne
      · rw [step_eq_apply hstep hplan] at ht
        simp only [World.apply, hs, Option.elim_some] at ht
        rw [settled_of_settles hsettles ht rfl] at hunsettled
        cases hunsettled
    · exact Or.inr (Or.inr ⟨b, hb, hid, hbs, hhand⟩)
  · exact Or.inl hhand

/-! ## What is remembered -/

/-- A song that is there, or was rolled back. -/
def Ingestion.Known (c : Ingestion) (songId : SongId) : Prop :=
  songId ∈ c.rolledBack ∨ ∃ t ∈ c.world.db.songs, t.id = songId

/-- What a step of the system adds to the answers. -/
theorem Ingestion.mem_record_returned {songId : SongId}
    (h : songId ∈ (c.record cfg w a).returned) :
    songId ∈ c.returned ∨ ∃ k, a = .advance k ∧ k.prepares = some songId := by
  unfold Ingestion.record at h
  split at h
  case h_1 =>
    split_ifs at h
    · exact Or.inl h
    · rcases List.mem_cons.mp h with rfl | h
      · exact Or.inr ⟨_, rfl, rfl⟩
      · exact Or.inl h
  case h_3 =>
    rcases List.mem_cons.mp h with rfl | h
    · exact Or.inr ⟨_, rfl, rfl⟩
    · exact Or.inl h
  all_goals exact Or.inl h

theorem Ingestion.rolledBack_subset_record :
    c.rolledBack ⊆ (c.record cfg w a).rolledBack := by
  unfold Ingestion.record
  split
  case h_1 => split_ifs <;> exact List.Subset.refl _
  case h_2 => exact List.subset_cons_self _ _
  all_goals exact List.Subset.refl _

/-- A loss is forgotten only when a retry appends a new entry. -/
theorem Ingestion.losses_subset_record {songId : SongId} {loss : Loss}
    (h : (songId, loss) ∈ c.losses) (ha : a ≠ .advance (.prepRetryPublish songId)) :
    (songId, loss) ∈ (c.record cfg w a).losses := by
  unfold Ingestion.record
  split
  case h_1 => split_ifs <;> exact h
  case h_3 retried =>
    refine List.mem_filter.mpr ⟨h, decide_eq_true fun hid => ha ?_⟩
    rw [show songId = retried from hid]
  case h_4 | h_5 | h_6 => exact List.mem_cons_of_mem _ h
  case h_7 => exact List.mem_append_right _ h
  all_goals exact h

/-- Every loss is remembered. -/
theorem LosesEntry.mem_record {songId : SongId} (h : LosesEntry c.world songId a) :
    ∃ loss, (songId, loss) ∈ (c.record cfg w a).losses := by
  cases h with
  | request hprepares =>
    rename_i k
    cases k <;> cases hprepares <;> exact ⟨_, List.mem_cons_self⟩
  | giveUp hunrecorded =>
    refine ⟨.giveUp, List.mem_append_left _ ?_⟩
    rw [hunrecorded]
    exact List.mem_cons_self

/-- **What a step keeps of a song**: it is there until it is rolled back. -/
theorem Ingestion.Known.record {songId : SongId} (h : c.Known songId)
    (hstep : step cfg c.world a = some w) : (c.record cfg w a).Known songId := by
  rcases h with hrolled | ⟨t, ht, rfl⟩
  · exact Or.inl (Ingestion.rolledBack_subset_record hrolled)
  · rcases song_of_step hstep ht with hthere | rfl
    · exact Or.inr (by rwa [Ingestion.record_world])
    · exact Or.inl List.mem_cons_self

/-! ## The invariant -/

/-- The step that took the entry of a row away is remembered. -/
def Ingestion.Lost (c : Ingestion) (songId : SongId) : Prop := ∃ loss ∈ c.losses, loss.1 = songId

instance (c : Ingestion) (songId : SongId) : Decidable (c.Lost songId) :=
  inferInstanceAs (Decidable (∃ loss ∈ _, _))

/-- Every row that is not settled is in hand or has lost its entry, and every song a request
holds or has returned is known. -/
structure Ingestion.Cared (c : Ingestion) : Prop where
  prep : PrepSound c.world
  settlesOld : c.world.SettlesOld
  unsettled : ∀ t ∈ c.world.db.songs, t.settled = false → c.world.InHand t.id ∨ c.Lost t.id
  prepares : ∀ k ∈ c.world.calls, ∀ songId, k.prepares = some songId → c.Known songId
  returned : ∀ songId ∈ c.returned, c.Known songId

theorem Ingestion.Cared.empty : Ingestion.Cared {} := by
  refine ⟨PrepSound.empty, ?_, ?_, ?_, ?_⟩
  · rintro entry ⟨⟩
  all_goals simp

/-- A loss is remembered, new or old, unless the row is in hand again. -/
theorem Ingestion.Lost.record {songId : SongId} (hstep : step cfg c.world a = some w)
    (h : LosesEntry c.world songId a ∨ (c.Lost songId ∧ ¬ c.world.InHand songId)) :
    (c.record cfg w a).Lost songId := by
  rcases h with hloses | ⟨⟨⟨_, loss⟩, hloss, rfl⟩, hhand⟩
  · obtain ⟨loss, hloss⟩ := hloses.mem_record
    exact ⟨_, hloss, rfl⟩
  · refine ⟨_, Ingestion.losses_subset_record hloss ?_, rfl⟩
    rintro rfl
    exact hhand (Or.inl ⟨_, mem_calls_of_advance hstep, rfl⟩)

/-- A request that begins to prepare a song has just created it, or finds it there. -/
theorem BeginsToPrepare.known {k : Call} {songId : SongId} (h : BeginsToPrepare c.world a k)
    (hprepares : k.prepares = some songId) (hstep : step cfg c.world a = some w)
    (hheld : (∃ k ∈ c.world.calls, k.prepares = some songId) → c.Known songId) :
    (c.record cfg w a).Known songId := by
  cases h with
  | created =>
    cases hprepares
    refine Or.inr ⟨{ id := c.world.nextUuid }, ?_, rfl⟩
    rw [Ingestion.record_world, ← Option.some.inj hstep]
    exact List.mem_append_right _ List.mem_cons_self
  | full =>
    cases hprepares
    exact (hheld ⟨_, mem_calls_of_advance hstep, rfl⟩).record hstep
  | restarted ht hid =>
    cases hprepares
    exact Ingestion.Known.record (Or.inr ⟨_, ht, hid⟩) hstep

/-- **A step of the system keeps the invariant.** -/
theorem Ingestion.Cared.record (h : c.Cared) (hstep : step cfg c.world a = some w) :
    (c.record cfg w a).Cared := by
  have hknown := fun {songId} (hsong : c.Known songId) => hsong.record hstep
  have hheld : ∀ songId, (∃ k ∈ c.world.calls, k.prepares = some songId) → c.Known songId := by
    rintro songId ⟨k, hk, hprepares⟩
    exact h.prepares k hk songId hprepares
  refine ⟨?_, ?_, ?_, ?_, ?_⟩
  · rw [Ingestion.record_world]
    exact h.prep.step hstep
  · rw [Ingestion.record_world]
    exact h.settlesOld.step h.prep hstep
  · intro t ht hunsettled
    rw [Ingestion.record_world] at ht ⊢
    rcases step_inHand h.prep h.settlesOld hstep ht hunsettled with hhand | hloses |
      ⟨b, hb, hid, hbs, hhand⟩
    · exact Or.inl hhand
    · exact Or.inr (.record hstep (Or.inl hloses))
    · refine Or.inr (.record hstep (Or.inr ⟨?_, hhand⟩))
      rw [← hid] at hhand ⊢
      exact (h.unsettled b hb hbs).resolve_left hhand
  · intro k hk songId hprepares
    rw [Ingestion.record_world] at hk
    rcases step_prepares hstep hk hprepares with hk | hbegins
    · exact hknown (h.prepares k hk songId hprepares)
    · exact hbegins.known hprepares hstep (hheld songId)
  · intro songId hsong
    rcases Ingestion.mem_record_returned hsong with hsong | ⟨k, rfl, hprepares⟩
    · exact hknown (h.returned songId hsong)
    · exact hknown (hheld songId ⟨k, mem_calls_of_advance hstep, hprepares⟩)

/-- The invariant looks at the stores, the losses and the answers only. -/
theorem Ingestion.Cared.congr (h : c.Cared) (hworld : c'.world = c.world)
    (hrolled : c'.rolledBack = c.rolledBack) (hlost : ∀ songId, c.Lost songId → c'.Lost songId)
    (hreturned : ∀ songId ∈ c'.returned, c.Known songId) : c'.Cared := by
  have hknown : ∀ songId, c'.Known songId ↔ c.Known songId := by
    intro songId
    rw [Ingestion.Known, Ingestion.Known, hworld, hrolled]
  refine ⟨hworld ▸ h.prep, hworld ▸ h.settlesOld, ?_, ?_, ?_⟩
  · rw [hworld]
    exact fun t ht hunsettled => (h.unsettled t ht hunsettled).imp_right (hlost t.id)
  · rw [hworld]
    exact fun k hk songId hprepares => (hknown songId).mpr (h.prepares k hk songId hprepares)
  · exact fun songId hsong => (hknown songId).mpr (hreturned songId hsong)

/-- **Every step keeps the invariant.** -/
theorem Ingestion.Cared.step {b : IngestionAction} (h : c.Cared)
    (hstep : ingest cfg c b = some c') : c'.Cared := by
  cases ingest_move hstep with
  | add | conflict | missed | fail | downloaded =>
    exact h.congr rfl rfl (fun _ => id) h.returned
  | created _ hworld =>
    have hnext := h.record hworld
    exact hnext.congr rfl rfl (fun _ => id) hnext.returned
  | @reused _ song hsong =>
    refine h.congr rfl rfl (fun _ => id) fun songId hret => ?_
    rcases List.mem_cons.mp hret with rfl | hret
    · exact Or.inr ⟨song, List.mem_of_find?_eq_some hsong, rfl⟩
    · exact h.returned songId hret
  | @downloadFails songId _ hworld =>
    -- the system sees a request that fails, whatever it was doing
    have hnext := h.record hworld
    refine hnext.congr rfl rfl (fun lost => ?_) hnext.returned
    rintro ⟨loss, hloss, rfl⟩
    rcases List.mem_cons.mp hloss with rfl | hloss
    · exact ⟨(songId, .download), List.mem_cons_self, rfl⟩
    · exact ⟨loss, List.mem_cons_of_mem _ hloss, rfl⟩
  | system _ hworld => exact h.record hworld

/-! ## Between two calls -/

/-- No call of the API is in flight. -/
def Ingestion.Quiet (c : Ingestion) : Prop := c.adding = [] ∧ c.world.calls = []

instance (c : Ingestion) : Decidable c.Quiet := inferInstanceAs (Decidable (_ ∧ _))

/-- A row that is pending or processing has an unacknowledged entry, but for the rows in
`lost`, and a returned song still exists, but for those in `deleted`. -/
def Ingestion.NoneDeadBut (c : Ingestion) (lost deleted : List SongId) : Prop :=
  (∀ t ∈ c.world.db.songs, t.prepStatus = .pending ∨ t.prepStatus = .processing →
      t.id ∉ lost →
        ∃ x ∈ c.world.prep.entries, c.world.prep.Outstanding x ∧ x.fields = t.id) ∧
    ∀ songId ∈ c.returned, songId ∉ deleted → ∃ t ∈ c.world.db.songs, t.id = songId

instance (c : Ingestion) (lost deleted : List SongId) : Decidable (c.NoneDeadBut lost deleted) :=
  inferInstanceAs (Decidable (_ ∧ _))

/-- **No dead song is handed out**, between two calls and in every run from the empty system,
but for what went wrong on the way: a row without an entry is one whose download failed,
whose give-up could not be recorded, or whose entry a failing request lost; and a song that
was returned is gone only if it was rolled back. -/
theorem ingest_noneDead (cfg : Config) (actions : List IngestionAction) (c : Ingestion)
    (hrun : exec (ingest cfg) {} actions = some c) (hquiet : c.Quiet) :
    c.NoneDeadBut (c.losses.map Prod.fst) c.rolledBack := by
  have hcared : c.Cared :=
    invariant_all Ingestion.Cared (fun s b s' h hs => h.step hs) .empty hrun
  refine ⟨fun t ht hstatus hlost => ?_, fun songId hsong hrolled => ?_⟩
  · have hunsettled : t.settled = false := by
      rcases hstatus with hstatus | hstatus <;> simp [Song.settled, hstatus]
    rcases hcared.unsettled t ht hunsettled with (⟨k, hk, -⟩ | ⟨x, hx, hout, hfields, -⟩) |
      ⟨loss, hloss, hid⟩
    · rw [hquiet.2] at hk
      cases hk
    · exact ⟨x, hx, hout, hfields⟩
    · exact absurd (List.mem_map.mpr ⟨loss, hloss, hid⟩) hlost
  · exact (hcared.returned songId hsong).resolve_left hrolled

/-! ## Two runs -/

/-- Two users upload the same song; the second is handed the row of the first before its
entry is appended. -/
def uploadsTwice : List IngestionAction :=
  [.add (.upload "5e8f"), .getOrCreate (.insert (.upload "5e8f")), .add (.upload "5e8f"),
   .getOrCreate (.insert (.upload "5e8f")), .getOrCreate (.select (.upload "5e8f")),
   .system (.advance (.songPublish 0))]

def uploadedTwice : Ingestion :=
  (exec (ingest defaultConfig) {} uploadsTwice).get (by decide +kernel)

theorem ingest_noneDead_uploadedTwice :
    uploadedTwice.NoneDeadBut (uploadedTwice.losses.map Prod.fst) uploadedTwice.rolledBack :=
  ingest_noneDead defaultConfig uploadsTwice uploadedTwice (Option.some_get _).symm
    (by decide +kernel)

/-- The download of an import fails, and the next user is handed its row. -/
def failsDownload : List IngestionAction :=
  [.add (.youTube "dQw4"), .getOrCreate (.insert (.youTube "dQw4")), .downloadFails 0,
   .add (.youTube "dQw4"), .getOrCreate (.insert (.youTube "dQw4")),
   .getOrCreate (.select (.youTube "dQw4"))]

/-- The row is pending for ever, and blocks its video for everybody. -/
theorem not_forall_noneDead :
    ¬ ∀ (actions : List IngestionAction) (c : Ingestion),
      exec (ingest defaultConfig) {} actions = some c → c.Quiet → c.NoneDeadBut [] [] := by
  intro h
  have hrun : (exec (ingest defaultConfig) {} failsDownload).map (fun c =>
      decide (c.Quiet ∧ ¬ c.NoneDeadBut [] [])) = some true := by
    decide +kernel
  obtain ⟨c, hc, htrue⟩ := Option.map_eq_some_iff.mp hrun
  obtain ⟨hquiet, hdead⟩ := of_decide_eq_true htrue
  exact hdead (h failsDownload c hc hquiet)

end VocalCoach
