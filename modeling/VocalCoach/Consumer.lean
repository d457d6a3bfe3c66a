/-
# The consumer of one stream

`queue/consumer.py`: a `Consumer` reads one of the two streams for the worker process,
hands its entries to the job handler, acknowledges what is over and, at start-up, reclaims
what an earlier process left pending.

A `Site` is all the worker process sees: both streams, the clock, its stop flag and the
entries it has processed.  What others do meanwhile is `Surroundings`: the events before
each operation, where the process dies, and how the handler ends for each entry.
-/
import VocalCoach.Constants
import VocalCoach.Programs
import VocalCoach.Streams

namespace VocalCoach

open RedisStream Program

abbrev JobId := ℕ

/-- `queue.streams`. -/
inductive StreamName
  | analysesRun
  | songsPrep
  deriving DecidableEq, Repr

/-- How `handler.handle` ends: it returns `True` or `False`, or it raises. -/
inductive Handled
  | finished
  | unfinished
  | raised
  deriving DecidableEq, Repr

/-! ## The process and what is around it -/

/-- What the worker process sees.  The fields of a message are its `job_id`, if it has one;
`processed` are the calls of `process_entry` since the process started, `failed` those of
`mark_permanently_failed`, and `clock` counts the operations of the current start-up or loop
iteration. -/
structure Site where
  analysesRun : Stream (Option JobId) := {}
  songsPrep : Stream (Option JobId) := {}
  now : ℕ := 0
  stopping : Bool := false
  processed : List (StreamName × ℕ) := []
  failed : List (StreamName × ℕ) := []
  clock : ℕ := 0
  deriving DecidableEq, Repr

/-- What somebody else does. -/
inductive Event
  | sleep (seconds : ℕ)
  | publish (stream : StreamName) (fields : Option JobId)
  | remove (stream : StreamName) (entry : ℕ)
  /-- `SIGTERM` or `SIGINT`. -/
  | signal
  deriving DecidableEq, Repr

/-- What goes on around one start-up, or one iteration of the loop. -/
structure Surroundings where
  /-- What happens before an operation. -/
  events : ℕ → List Event := fun _ => []
  /-- The operation the process dies before. -/
  diesAt : Option ℕ := none
  handle : StreamName → ℕ → Handled := fun _ _ => .finished
  oldestWaitingSong : Option JobId := none

namespace Site

def stream (s : Site) : StreamName → Stream (Option JobId)
  | .analysesRun => s.analysesRun
  | .songsPrep => s.songsPrep

def update (s : Site) (name : StreamName)
    (f : Stream (Option JobId) → Stream (Option JobId)) : Site :=
  match name with
  | .analysesRun => { s with analysesRun := f s.analysesRun }
  | .songsPrep => { s with songsPrep := f s.songsPrep }

def event (s : Site) : Event → Site
  | .sleep seconds => { s with now := s.now + seconds }
  | .publish name fields => s.update name (Stream.xadd fields)
  | .remove name entry => s.update name (Stream.xdel entry)
  | .signal => { s with stopping := true }

def happen (s : Site) (events : List Event) : Site := events.foldl event s

/-- The site an operation of the process finds. -/
def meanwhile (around : Surroundings) (s : Site) : Site :=
  { s.happen (around.events s.clock) with clock := s.clock + 1 }

end Site

variable (around : Surroundings)

/-- One operation of the process. -/
def operate {α : Type} (f : Site → α × Site) : Prog Site α := fun s =>
  let found := s.meanwhile around
  if around.diesAt = some s.clock then (none, found)
  else
    let (a, t) := f found
    (some a, t)

/-- An operation that returns nothing. -/
def perform (f : Site → Site) : Prog Site Unit := operate around fun s => ((), f s)

/-! ## `Consumer` -/

structure Consumer where
  streamName : StreamName
  reclaimMinIdleSeconds : ℕ
  maxClaimAttempts : ℕ
  consumerName : ℕ
  deriving DecidableEq, Repr

namespace Consumer

variable (c : Consumer)

/-- The consumer of `analyses:run`. -/
def analyses (consumerName : ℕ) : Consumer where
  streamName := .analysesRun
  reclaimMinIdleSeconds := pendingClaimMinIdle
  maxClaimAttempts := VocalCoach.maxClaimAttempts
  consumerName := consumerName

/-- The consumer of `songs:prep`. -/
def songsPrep (consumerName : ℕ) : Consumer where
  streamName := .songsPrep
  reclaimMinIdleSeconds := songsPrepPendingClaimMinIdle
  maxClaimAttempts := VocalCoach.maxClaimAttempts
  consumerName := consumerName

/-- `read_next`: at most one entry nobody has been handed yet. -/
def readNext : Prog Site (List (Entry (Option JobId))) :=
  operate around fun s =>
    ((s.stream c.streamName).newEntries 1,
      s.update c.streamName (Stream.xreadgroup c.consumerName s.now 1))

/-- `claim_new_entries`. -/
def claimNewEntries : Prog Site Unit :=
  perform around fun s =>
    s.update c.streamName (Stream.xreadgroup c.consumerName s.now reclaimBatchSize)

/-- `pending_entries`: this consumer's own, oldest first. -/
def pendingEntries : Prog Site (List Delivery) :=
  operate around fun s =>
    ((s.stream c.streamName).xpending (some c.consumerName) 0 s.now reclaimBatchSize, s)

/-- `fields_for`. -/
def fieldsFor (entry : ℕ) : Prog Site (Option (Option JobId)) :=
  operate around fun s => ((s.stream c.streamName).xrange entry, s)

/-- `_ack_and_remove`. -/
def ackAndRemove (entry : ℕ) : Prog Site Unit := do
  perform around fun s => s.update c.streamName (Stream.xack entry)
  perform around fun s => s.update c.streamName (Stream.xdel entry)

/-- `handler.handle`. -/
def handle (entry : ℕ) : Prog Site Handled :=
  operate around fun s => (around.handle c.streamName entry, s)

/-- `process_entry`: an entry without a `job_id` is dropped, an exception is logged. -/
def processEntry (entry : ℕ) (fields : Option JobId) : Prog Site Unit := do
  perform around fun s => { s with processed := s.processed ++ [(c.streamName, entry)] }
  match fields with
  | none => c.ackAndRemove around entry
  | some _ =>
      let handled ← c.handle around entry
      if handled = .finished then c.ackAndRemove around entry else pure ()

/-- `handler.mark_permanently_failed`, which touches no stream, if the message is there and
has a `job_id`; an exception is logged. -/
def recordGiveUp (entry : ℕ) : Option (Option JobId) → Prog Site Unit
  | some (some _) => perform around fun s => { s with failed := s.failed ++ [(c.streamName, entry)] }
  | _ => pure ()

/-- `_give_up`. -/
def giveUp (entry : ℕ) : Prog Site Unit := do
  let fields ← c.fieldsFor around entry
  c.recordGiveUp around entry fields
  c.ackAndRemove around entry

/-- `XCLAIM` of one entry. -/
def claim (entry : ℕ) : Prog Site (Option (Option JobId)) :=
  operate around fun s =>
    ((s.stream c.streamName).xclaimed c.reclaimMinIdleSeconds s.now entry,
      s.update c.streamName (Stream.xclaim c.consumerName c.reclaimMinIdleSeconds s.now entry))

/-- What `reclaim_stuck_jobs` does with one pending entry. -/
def reclaimOne (d : Delivery) : Prog Site Unit :=
  if c.maxClaimAttempts < d.timesDelivered then c.giveUp around d.id
  else do
    match ← c.claim around d.id with
    | none => pure ()
    | some fields => c.processEntry around d.id fields

def reclaimEach : List Delivery → Prog Site Unit
  | [] => pure ()
  | d :: pending => do
      c.reclaimOne around d
      reclaimEach pending

/-- `reclaim_stuck_jobs`. -/
def reclaimStuckJobs : Prog Site Unit := do
  let pending ← operate around fun s =>
    ((s.stream c.streamName).xpending none c.reclaimMinIdleSeconds s.now reclaimBatchSize, s)
  c.reclaimEach around pending

end Consumer

end VocalCoach
