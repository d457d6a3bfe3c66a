/-
# Adding songs

`AddFromUpload` and `AddFromYouTube` over the running system.  Both insert a row unless
one with the same `content_hash` exists, which they then look up and return; whoever
created the row puts it on `songs:prep`, a YouTube import after its download.

The system of `World` knows what happens to a row from its creation on.  `Ingestion` adds
the calls before that, the downloads, and what the calls have answered so far; its steps on
the stores are steps of the system (`ingest_world`), and `ingest_deduplicated` says that no
two rows ever hold the same content.
-/
import VocalCoach.PrepJobs

namespace VocalCoach

open RedisStream

/-! ## The calls -/

/-- A song to add, by what its `content_hash` is made of. -/
inductive Candidate
  /-- `AddFromUpload`: the digest of the canonical audio. -/
  | upload (sha256 : String)
  /-- `AddFromYouTube`: the id of the video. -/
  | youTube (videoId : String)
  deriving DecidableEq, Repr

def Candidate.contentHash : Candidate → String
  | .upload sha256 => sha256
  | .youTube videoId => "youtube:" ++ videoId

/-- A call in `GetOrCreate`, by the statement it runs next. -/
inductive GetOrCreate
  /-- `INSERT ... ON CONFLICT (content_hash) DO NOTHING`. -/
  | insert (candidate : Candidate)
  /-- `SELECT ... WHERE content_hash = $1`. -/
  | select (candidate : Candidate)
  deriving DecidableEq, Repr

/-- How the `songs:prep` entry of a row gets lost. -/
inductive Loss
  /-- `downloadAndStore` fails: the documented gap of `AddFromYouTube`. -/
  | download
  /-- `_give_up` cannot record the failure, and removes the entry all the same. -/
  | giveUp
  /-- `enqueuePrep` or `RetryPrep` fails to append the entry of its row. -/
  | enqueue
  /-- `enqueuePrep` fails to delete the row the queue has no room for. -/
  | rollBack
  deriving DecidableEq, Repr

/-- The system with the calls that add songs.  `downloading` are the rows whose import is
in `downloadAndStore`; `returned`, `rolledBack` and `losses` are what has happened so far. -/
structure Ingestion where
  world : World := {}
  contentHashes : List (SongId × String) := []
  adding : List GetOrCreate := []
  downloading : List SongId := []
  returned : List SongId := []
  rolledBack : List SongId := []
  losses : List (SongId × Loss) := []
  deriving DecidableEq, Repr

inductive IngestionAction
  /-- `AddFromUpload` or `AddFromYouTube` gets as far as `GetOrCreate`. -/
  | add (candidate : Candidate)
  /-- A call runs its next statement. -/
  | getOrCreate (call : GetOrCreate)
  /-- The next statement of a call fails. -/
  | fail (call : GetOrCreate)
  | downloaded (songId : SongId)
  | downloadFails (songId : SongId)
  /-- Any other step of the system. -/
  | system (a : Action)
  deriving DecidableEq, Repr

/-! ## What a step does -/

/-- The row that holds a content hash. -/
def Ingestion.existing (c : Ingestion) (contentHash : String) : Option Song :=
  c.world.db.songs.find? fun t => (t.id, contentHash) ∈ c.contentHashes

/-- The song the worker gives up on without having recorded that. -/
def Worker.unrecorded : Worker → Option SongId
  | .prepFail _ songId _ true => some songId
  | _ => none

variable (cfg : Config)

/-- What a step of the system that leads to `world` is remembered by. -/
def Ingestion.record (c : Ingestion) (world : World) : Action → Ingestion
  | .advance (.songPublish songId) =>
      if cfg.prepQueueMaxLength ≤ c.world.prep.xlen then { c with world }
      else { c with world, returned := songId :: c.returned }
  | .advance (.songRollBack songId) => { c with world, rolledBack := songId :: c.rolledBack }
  | .advance (.prepRetryPublish songId) =>
      { c with
        world
        returned := songId :: c.returned
        losses := c.losses.filter fun loss => loss.1 ≠ songId }
  | .abort (.songPublish songId) | .abort (.prepRetryPublish songId) =>
      { c with world, losses := (songId, .enqueue) :: c.losses }
  | .abort (.songRollBack songId) => { c with world, losses := (songId, .rollBack) :: c.losses }
  | .raise =>
      { c with
        world
        losses := c.world.worker.unrecorded.toList.map (·, .giveUp) ++ c.losses }
  | _ => { c with world }

/-- Rows are created by `GetOrCreate`, and a row is not enqueued during its download. -/
def Ingestion.allows (c : Ingestion) : Action → Bool
  | .request .addSong => false
  | .advance (.songPublish songId) | .abort (.songPublish songId) => songId ∉ c.downloading
  | _ => true

/-- The next statement of `GetOrCreate`; `rest` are the other calls in it. -/
def Ingestion.getOrCreate (c : Ingestion) (rest : List GetOrCreate) :
    GetOrCreate → Option Ingestion
  | .insert candidate =>
      if (c.existing candidate.contentHash).isSome then
        some { c with adding := .select candidate :: rest }
      else
        (step cfg c.world (.request .addSong)).map fun world =>
          { c with
            world
            contentHashes := (c.world.nextUuid, candidate.contentHash) :: c.contentHashes
            adding := rest
            downloading :=
              match candidate with
              | .upload _ => c.downloading
              | .youTube _ => c.world.nextUuid :: c.downloading }
  | .select candidate =>
      some { c with
        adding := rest
        returned := (c.existing candidate.contentHash).toList.map Song.id ++ c.returned }

/-- One step of the system with the calls that add songs. -/
def ingest (c : Ingestion) : IngestionAction → Option Ingestion
  | .add candidate => some { c with adding := .insert candidate :: c.adding }
  | .getOrCreate call =>
      if call ∈ c.adding then c.getOrCreate cfg (c.adding.erase call) call else none
  | .fail call =>
      if call ∈ c.adding then some { c with adding := c.adding.erase call } else none
  | .downloaded songId =>
      if songId ∈ c.downloading then some { c with downloading := c.downloading.erase songId }
      else none
  | .downloadFails songId =>
      if songId ∈ c.downloading then
        (step cfg c.world (.abort (.songPublish songId))).map fun world =>
          { c with
            world
            downloading := c.downloading.erase songId
            losses := (songId, .download) :: c.losses }
      else none
  | .system a =>
      if c.allows a then (step cfg c.world a).map fun world => c.record cfg world a else none

/-! ## Inversion -/

variable {cfg} {c c' : Ingestion} {w w' : World} {a : Action} {e : Effect}

/-- The moves of the calls, each with the state it leads to. -/
inductive IngestionMove (cfg : Config) (c : Ingestion) : IngestionAction → Ingestion → Prop
  | add {candidate} :
      IngestionMove cfg c (.add candidate) { c with adding := .insert candidate :: c.adding }
  | conflict {candidate} (hrow : (c.existing candidate.contentHash).isSome) :
      IngestionMove cfg c (.getOrCreate (.insert candidate))
        { c with adding := .select candidate :: c.adding.erase (.insert candidate) }
  | created {candidate world downloading} (hfree : c.existing candidate.contentHash = none)
      (hstep : step cfg c.world (.request .addSong) = some world) :
      IngestionMove cfg c (.getOrCreate (.insert candidate))
        { c with
          world
          contentHashes := (c.world.nextUuid, candidate.contentHash) :: c.contentHashes
          adding := c.adding.erase (.insert candidate)
          downloading }
  | reused {candidate song} (hsong : c.existing candidate.contentHash = some song) :
      IngestionMove cfg c (.getOrCreate (.select candidate))
        { c with
          adding := c.adding.erase (.select candidate), returned := song.id :: c.returned }
  | missed {candidate} (hgone : c.existing candidate.contentHash = none) :
      IngestionMove cfg c (.getOrCreate (.select candidate))
        { c with adding := c.adding.erase (.select candidate) }
  | fail {call} :
      IngestionMove cfg c (.fail call) { c with adding := c.adding.erase call }
  | downloaded {songId} :
      IngestionMove cfg c (.downloaded songId)
        { c with downloading := c.downloading.erase songId }
  | downloadFails {songId world}
      (hstep : step cfg c.world (.abort (.songPublish songId)) = some world) :
      IngestionMove cfg c (.downloadFails songId)
        { c with
          world
          downloading := c.downloading.erase songId
          losses := (songId, .download) :: c.losses }
  | system {a world} (hallows : c.allows a) (hstep : step cfg c.world a = some world) :
      IngestionMove cfg c (.system a) (c.record cfg world a)

/-- **Every step is one of the moves.** -/
theorem ingest_move {b : IngestionAction} (h : ingest cfg c b = some c') :
    IngestionMove cfg c b c' := by
  cases b with
  | add candidate =>
    cases h
    exact .add
  | getOrCreate call =>
    obtain ⟨-, h⟩ := Option.ite_none_right_eq_some.mp h
    cases call with
    | insert candidate =>
      simp only [Ingestion.getOrCreate] at h
      split_ifs at h with hrow
      · cases h
        exact .conflict hrow
      · obtain ⟨world, hstep, rfl⟩ := Option.map_eq_some_iff.mp h
        exact .created (by simpa using hrow) hstep
    | select candidate =>
      cases h
      cases hsong : c.existing candidate.contentHash with
      | none => exact .missed hsong
      | some song => exact .reused hsong
  | fail call =>
    obtain ⟨-, h⟩ := Option.ite_none_right_eq_some.mp h
    cases h
    exact .fail
  | downloaded songId =>
    obtain ⟨-, h⟩ := Option.ite_none_right_eq_some.mp h
    cases h
    exact .downloaded
  | downloadFails songId =>
    obtain ⟨-, h⟩ := Option.ite_none_right_eq_some.mp h
    obtain ⟨world, hstep, rfl⟩ := Option.map_eq_some_iff.mp h
    exact .downloadFails hstep
  | system a =>
    obtain ⟨hallows, h⟩ := Option.ite_none_right_eq_some.mp h
    obtain ⟨world, hstep, rfl⟩ := Option.map_eq_some_iff.mp h
    exact .system hallows hstep

theorem Ingestion.record_world (world : World) (a : Action) :
    (c.record cfg world a).world = world := by
  unfold Ingestion.record
  split
  · split_ifs <;> rfl
  all_goals rfl

theorem Ingestion.record_contentHashes (world : World) (a : Action) :
    (c.record cfg world a).contentHashes = c.contentHashes := by
  unfold Ingestion.record
  split
  · split_ifs <;> rfl
  all_goals rfl

/-- **The steps on the stores are steps of the system.** -/
theorem ingest_world {b : IngestionAction} (h : ingest cfg c b = some c') :
    c'.world = c.world ∨ ∃ a, step cfg c.world a = some c'.world := by
  cases ingest_move h with
  | add | conflict | reused | missed | fail | downloaded => exact Or.inl rfl
  | created _ hstep => exact Or.inr ⟨_, hstep⟩
  | downloadFails hstep => exact Or.inr ⟨_, hstep⟩
  | system _ hstep =>
    rw [Ingestion.record_world]
    exact Or.inr ⟨_, hstep⟩

/-! ## One row for each content -/

/-- A song of a step that creates none was there before. -/
theorem song_of_allowed (hallows : c.allows a) (hstep : step cfg c.world a = some w) {t : Song}
    (ht : t ∈ w.db.songs) : ∃ b ∈ c.world.db.songs, b.id = t.id := by
  rcases step_song hstep ht with ht | ⟨e, s, hplan, hs, ⟨b, hb, hbt⟩ | hins⟩
  · exact ⟨t, ht, rfl⟩
  · exact ⟨b, hb, (onSong_id hbt).symm⟩
  · obtain rfl := plan_creates hplan hs hins
    cases hallows

/-- No two rows hold the same content hash, as the unique index on it demands. -/
structure Ingestion.Deduplicated (c : Ingestion) : Prop where
  sound : c.world.Sound
  fresh : ∀ p ∈ c.contentHashes, p.1 < c.world.nextUuid
  unique : ∀ r ∈ c.world.db.songs, ∀ t ∈ c.world.db.songs, ∀ contentHash,
    (r.id, contentHash) ∈ c.contentHashes → (t.id, contentHash) ∈ c.contentHashes → r.id = t.id

theorem Ingestion.Deduplicated.empty : Ingestion.Deduplicated {} :=
  ⟨World.Sound.empty, by simp, by simp⟩

/-- Rows that were there before and hold the same hashes stay deduplicated. -/
theorem Ingestion.Deduplicated.of_songs (h : c.Deduplicated) (hsound : c'.world.Sound)
    (huuid : c.world.nextUuid ≤ c'.world.nextUuid) (hhashes : c'.contentHashes = c.contentHashes)
    (hsongs : ∀ t ∈ c'.world.db.songs, ∃ b ∈ c.world.db.songs, b.id = t.id) :
    c'.Deduplicated := by
  refine ⟨hsound, ?_, ?_⟩
  · rw [hhashes]
    exact fun p hp => (h.fresh p hp).trans_le huuid
  · rw [hhashes]
    intro r hr t ht contentHash hrh hth
    obtain ⟨r₀, hr₀, hrid⟩ := hsongs r hr
    obtain ⟨t₀, ht₀, htid⟩ := hsongs t ht
    rw [← hrid] at hrh ⊢
    rw [← htid] at hth ⊢
    exact h.unique r₀ hr₀ t₀ ht₀ contentHash hrh hth

/-- A row is created only for a hash that no row holds. -/
theorem Ingestion.Deduplicated.created {contentHash : String} (h : c.Deduplicated)
    (hfree : c.existing contentHash = none)
    (hstep : step cfg c.world (.request .addSong) = some c'.world)
    (hhashes : c'.contentHashes = (c.world.nextUuid, contentHash) :: c.contentHashes) :
    c'.Deduplicated := by
  have hsound := h.sound.step hstep
  have heq : c'.world = c.world.apply (Request.plan cfg c.world .addSong) :=
    (Option.some.inj hstep).symm
  have hnone : ∀ t ∈ c.world.db.songs, (t.id, contentHash) ∉ c.contentHashes := by
    intro t ht hmem
    have hfound := List.find?_eq_none.mp hfree t ht
    simp [hmem] at hfound
  -- a row of the new state with its hash is an old row with an old hash, or the new one
  have hcases : ∀ t ∈ c'.world.db.songs, ∀ hash, (t.id, hash) ∈ c'.contentHashes →
      (t ∈ c.world.db.songs ∧ (t.id, hash) ∈ c.contentHashes) ∨
        (t.id = c.world.nextUuid ∧ hash = contentHash) := by
    intro t ht hash hmem
    rw [hhashes] at hmem
    rcases List.mem_cons.mp hmem with hnew | hold
    · exact Or.inr (Prod.mk.inj hnew)
    · refine Or.inl ⟨?_, hold⟩
      rw [heq] at ht
      rcases List.mem_append.mp ht with ht | ht
      · exact ht
      · have hlt := h.fresh _ hold
        rw [List.mem_singleton.mp ht] at hlt
        exact absurd hlt (Nat.lt_irrefl _)
  refine ⟨hsound, ?_, ?_⟩
  · rw [hhashes, heq]
    intro p hp
    rcases List.mem_cons.mp hp with rfl | hp
    · exact Nat.lt_succ_self _
    · exact Nat.lt_succ_of_lt (h.fresh p hp)
  · intro r hr t ht hash hrh hth
    rcases hcases r hr hash hrh with ⟨hr, hrh⟩ | ⟨hrid, rfl⟩ <;>
      rcases hcases t ht _ hth with ⟨ht, hth⟩ | ⟨htid, hhash⟩
    · exact h.unique r hr t ht hash hrh hth
    · exact absurd (hhash ▸ hrh) (hnone r hr)
    · exact absurd hth (hnone t ht)
    · rw [hrid, htid]

theorem Ingestion.Deduplicated.step {b : IngestionAction} (h : c.Deduplicated)
    (hstep : ingest cfg c b = some c') : c'.Deduplicated := by
  cases ingest_move hstep with
  | add | conflict | reused | missed | fail | downloaded =>
    exact h.of_songs h.sound (Nat.le_refl _) rfl fun t ht => ⟨t, ht, rfl⟩
  | created hfree hworld => exact h.created hfree hworld rfl
  | downloadFails hworld =>
    exact h.of_songs (h.sound.step hworld) (step_nextUuid hworld) rfl
      fun t ht => song_of_allowed (c := { c with downloading := [] }) rfl hworld ht
  | @system a _ hallows hworld =>
    refine h.of_songs ?_ ?_ ?_ ?_
    · rw [Ingestion.record_world]
      exact h.sound.step hworld
    · rw [Ingestion.record_world]
      exact step_nextUuid hworld
    · exact Ingestion.record_contentHashes _ a
    · rw [Ingestion.record_world]
      exact fun t ht => song_of_allowed hallows hworld ht

/-- **Equal content is one row**, in every run from the empty system. -/
theorem ingest_deduplicated {actions : List IngestionAction}
    (hrun : Machine.exec (ingest cfg) {} actions = some c) : c.Deduplicated :=
  Machine.invariant_all Ingestion.Deduplicated (fun _ _ _ h hs => h.step hs) .empty hrun

end VocalCoach
