/-
# Who creates the consumer group

A stream whose consumer group need not exist: the API creates it at its start-up with
`EnsureGroup`, which starts the group at the end of the stream (`$`), the worker with
`ensure_group`, which starts it at the beginning (`0`), at its own start-up and whenever a
read answers `NOGROUP`.  Both tolerate `BUSYGROUP`.  Redis may lose the stream, its group
with it, and an `XADD` brings back a stream without a group.

The server also logs which entries the group was ever handed (`delivered`), so that
`NoneSkipped` can say that every other entry is still ahead of the group.  Only the
creation at the end can break it, and only over entries that are there
(`noneSkipped_along_iff`).
-/
import VocalCoach.Steps

namespace VocalCoach.GroupCreation

open RedisStream Machine

variable {F : Type*}

/-- A stream, whether its group exists, and the ids the group was handed.  Without a group
the group's part of the stream is as in a new one. -/
structure Server (F : Type*) where
  stream : Stream F := {}
  group : Bool := false
  delivered : List EntryId := []
  deriving DecidableEq, Repr

/-- `XGROUP CREATE ... MKSTREAM` from an id on, `BUSYGROUP` tolerated. -/
def Server.createGroup (start : EntryId) (s : Server F) : Server F :=
  if s.group then s
  else { s with group := true, stream := { s.stream with lastDelivered := start } }

/-- `EnsureGroup` of the API. -/
def Server.ensureGroupApi (s : Server F) : Server F := s.createGroup s.stream.lastId

/-- `ensure_group` of the worker. -/
def Server.ensureGroup (s : Server F) : Server F := s.createGroup 0

/-- What `XREADGROUP` hands out is logged. -/
def handsOut (s : Stream F) : Command F → List EntryId
  | .xreadgroup _ count => (s.newEntries count).map Entry.id
  | _ => []

/-- The commands that answer `NOGROUP` where there is no group. -/
def needsGroup : Command F → Bool
  | .xadd _ | .xdel _ => false
  | _ => true

def Server.command (now : Time) (c : Command F) (s : Server F) : Server F :=
  if needsGroup c ∧ ¬ s.group then s
  else { s with stream := c.run now s.stream, delivered := s.delivered ++ handsOut s.stream c }

/-! ## Runs -/

inductive Action (F : Type*)
  /-- A start-up of the API. -/
  | ensureGroupApi
  /-- A start-up of the worker, or its read found no group. -/
  | ensureGroup
  /-- Redis loses the stream and its group. -/
  | lose
  /-- A command of any producer or of the worker. -/
  | command (now : Time) (c : Command F)
  deriving DecidableEq, Repr

def step (s : Server F) : Action F → Option (Server F)
  | .ensureGroupApi => some s.ensureGroupApi
  | .ensureGroup => some s.ensureGroup
  | .lose => some {}
  | .command now c => some (s.command now c)

/-- Every entry the group was not handed is still ahead of it. -/
def NoneSkipped (s : Server F) : Prop :=
  s.group → ∀ e ∈ s.stream.entries, e.id ∉ s.delivered → s.stream.lastDelivered < e.id

instance (s : Server F) : Decidable (NoneSkipped s) :=
  inferInstanceAs (Decidable (_ → ∀ e ∈ _, _))

/-- The API creates the group over an empty stream only. -/
def CreatesOverNothing (s : Server F) : Action F → Prop
  | .ensureGroupApi => s.group ∨ s.stream.entries = []
  | _ => True

/-! ## What holds of every server -/

/-- The stream is ordered, no id is below the first one, and a group that does not exist
was handed nothing. -/
structure Sound (s : Server F) : Prop where
  ordered : s.stream.Ordered
  pos : ∀ e ∈ s.stream.entries, 0 < e.id
  noGroup : s.group = false → s.delivered = [] ∧ s.stream.pending = []

theorem Sound.empty : Sound ({} : Server F) :=
  ⟨Stream.Ordered.empty, by simp, fun _ => ⟨rfl, rfl⟩⟩

theorem Sound.createGroup {s : Server F} (h : Sound s) {start : EntryId}
    (hstart : start ≤ s.stream.lastId) : Sound (s.createGroup start) := by
  unfold Server.createGroup
  split_ifs with hgroup
  · exact h
  · refine ⟨⟨h.ordered.increasing, h.ordered.entries_le, hstart, fun d hd => ?_⟩, h.pos, nofun⟩
    rw [(h.noGroup (by simpa using hgroup)).2] at hd
    cases hd

theorem Sound.command {s : Server F} (h : Sound s) (now : Time) (c : Command F) :
    Sound (s.command now c) := by
  unfold Server.command
  split_ifs with hnogroup
  · exact h
  · refine ⟨Command.run_ordered h.ordered now c, fun e he => ?_, fun hgroup => ?_⟩
    · rcases Command.mem_run he with he | hnew
      · exact h.pos e he
      · rw [hnew]
        exact Nat.succ_pos _
    · obtain ⟨hdelivered, hpending⟩ := h.noGroup hgroup
      cases c with
      | xadd => exact ⟨by simp [hdelivered, handsOut], hpending⟩
      | xdel => exact ⟨by simp [hdelivered, handsOut], hpending⟩
      | _ => exact absurd ⟨rfl, by simpa using hgroup⟩ hnogroup

theorem Sound.step {s s' : Server F} {a : Action F} (h : Sound s)
    (hstep : GroupCreation.step s a = some s') : Sound s' := by
  cases a <;> cases hstep
  · exact h.createGroup (Nat.le_refl _)
  · exact h.createGroup (Nat.zero_le _)
  · exact Sound.empty
  · exact h.command _ _

/-! ## What a step skips -/

/-- No command skips an entry: reading moves the group up to what it hands out, and no
further. -/
theorem noneSkipped_command {s : Server F} (hs : Sound s) (h : NoneSkipped s) (now : Time)
    (c : Command F) : NoneSkipped (s.command now c) := by
  unfold Server.command
  split_ifs
  · exact h
  · intro hgroup e he hnot
    rw [List.mem_append, not_or] at hnot
    obtain ⟨hnot, hnew⟩ := hnot
    cases c with
    | xadd fields =>
      rcases List.mem_append.mp he with he | he
      · exact h hgroup e he hnot
      · rw [List.mem_singleton.mp he]
        exact Nat.lt_succ_of_le hs.ordered.delivered_le
    | xdel id => exact h hgroup e (List.mem_of_mem_filter he) hnot
    | xack id => exact h hgroup e he hnot
    | xreadgroup consumer count =>
      have hahead := h hgroup e he hnot
      refine (hs.ordered.cursor consumer now count).2.2.2 e
        (Stream.mem_undelivered.mpr ⟨he, hahead⟩) fun hmem => ?_
      exact hnew (List.mem_map.mpr ⟨e, hmem, rfl⟩)
    | xclaim consumer minIdle id =>
      obtain ⟨hentries, -, hdelivered⟩ := s.stream.xclaim_entries consumer minIdle now id
      rw [Command.run, hdelivered]
      rw [Command.run, hentries] at he
      exact h hgroup e he hnot

/-- A group that starts at the beginning has everything ahead of it. -/
theorem noneSkipped_ensureGroup {s : Server F} (hs : Sound s) (h : NoneSkipped s) :
    NoneSkipped s.ensureGroup := by
  unfold Server.ensureGroup Server.createGroup
  split_ifs
  · exact h
  · exact fun _ e he _ => hs.pos e he

/-- A group that starts at the end has nothing ahead of it. -/
theorem noneSkipped_ensureGroupApi {s : Server F} (hs : Sound s) (h : NoneSkipped s) :
    NoneSkipped s.ensureGroupApi ↔ s.group ∨ s.stream.entries = [] := by
  unfold Server.ensureGroupApi Server.createGroup
  split_ifs with hgroup
  · exact iff_of_true h (Or.inl hgroup)
  · constructor
    · intro hahead
      refine Or.inr (List.eq_nil_iff_forall_not_mem.mpr fun e he => ?_)
      have hlt := hahead rfl e he (by simp [(hs.noGroup (by simpa using hgroup)).1])
      exact absurd hlt (Nat.not_lt.mpr (hs.ordered.entries_le e he))
    · rintro (hgroup' | hnil)
      · exact absurd hgroup' hgroup
      · intro _ e he
        rw [show _ = _ from hnil] at he
        cases he

/-- **When no entry is skipped.**  For every order of start-ups, losses of the stream and
commands: every entry the group was not handed is still ahead of it in every state if and
only if the API never creates the group over a stream with entries. -/
theorem noneSkipped_along_iff (as : List (Action F)) :
    Along step NoneSkipped ({} : Server F) as ↔ Meets step CreatesOverNothing {} as := by
  refine along_iff_meets Sound (fun s a s' h hstep => h.step hstep) ?_ Sound.empty nofun as
  intro s a s' hs h hstep
  cases a <;> cases hstep
  case ensureGroupApi => exact noneSkipped_ensureGroupApi hs h
  case ensureGroup => exact iff_of_true (noneSkipped_ensureGroup hs h) trivial
  case lose => exact iff_of_true nofun trivial
  case command now c => exact iff_of_true (noneSkipped_command hs h now c) trivial

/-! ## A restart of the API -/

/-- Redis loses the stream, a retry brings it back with one entry, the API restarts before
the worker has read anything. -/
def restartsApi : List (Action AnalysisId) :=
  [.ensureGroupApi, .ensureGroup, .lose, .command 0 (.xadd 1), .ensureGroupApi]

/-- The group is created behind the entry. -/
theorem not_forall_noneSkipped :
    ¬ ∀ (as : List (Action AnalysisId)) (s : Server AnalysisId),
      exec step {} as = some s → NoneSkipped s := by
  intro h
  have hrun : (exec step {} restartsApi).map (fun s => decide (NoneSkipped s)) = some false := by
    decide +kernel
  obtain ⟨s, hs, hfalse⟩ := Option.map_eq_some_iff.mp hrun
  exact of_decide_eq_false hfalse (h restartsApi s hs)

end VocalCoach.GroupCreation
