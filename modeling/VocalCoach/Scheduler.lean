/-
# The scheduler of the worker

`queue/scheduler.py`: `run_forever` reclaims both streams once and then goes round a loop
that serves `analyses:run` first, then the `songs:prep` entry an analysis waits for, then
the oldest one.

`queueStep` is the life of the worker over any number of starts: a start-up and an
iteration of the loop are one step each, and each may be where the process dies.  Between
two steps it is down or at the top of the loop.
-/
import VocalCoach.Consumer
import VocalCoach.Machine

namespace VocalCoach

open RedisStream Program

variable (around : Surroundings)

/-! ## `Scheduler` -/

structure Scheduler where
  analyses : Consumer
  songsPrep : Consumer
  deriving DecidableEq, Repr

namespace Scheduler

/-- The scheduler of the worker of that name. -/
def ofConsumer (consumerName : ℕ) : Scheduler where
  analyses := .analyses consumerName
  songsPrep := .songsPrep consumerName

variable (sched : Scheduler)

/-- `_process_first`. -/
def processFirst (c : Consumer) : List (Entry (Option JobId)) → Prog Site Unit
  | [] => pure ()
  | e :: messages => do
      if ← read Site.stopping then pure ()
      else
        c.processEntry around e.id e.fields
        processFirst c messages

/-- The loop of `_process_priority_prep`. -/
def processMatching (songId : JobId) : List Delivery → Prog Site Bool
  | [] => pure false
  | d :: pending => do
      let fields ← sched.songsPrep.fieldsFor around d.id
      if fields = some (some songId) then
        sched.songsPrep.processEntry around d.id (some songId)
        pure true
      else processMatching songId pending

/-- `_process_priority_prep`. -/
def processPriorityPrep (songId : JobId) : Prog Site Bool := do
  sched.songsPrep.claimNewEntries around
  let pending ← sched.songsPrep.pendingEntries around
  sched.processMatching around songId pending

/-- `_process_next_prep`. -/
def processNextPrep : Prog Site Bool := do
  sched.songsPrep.claimNewEntries around
  match ← sched.songsPrep.pendingEntries around with
  | [] => pure false
  | d :: _ =>
      match ← sched.songsPrep.fieldsFor around d.id with
      | none => pure false
      | some fields => do
          sched.songsPrep.processEntry around d.id fields
          pure true

/-- `oldest_waiting_song_id`. -/
def oldestWaitingSongId : Prog Site (Option JobId) :=
  operate around fun s => (around.oldestWaitingSong, s)

/-- The part of `_tick` about `songs:prep`. -/
def tickPrep : Prog Site Bool := do
  match ← oldestWaitingSongId around with
  | none => sched.processNextPrep around
  | some songId =>
      if ← sched.processPriorityPrep around songId then pure true
      else sched.processNextPrep around

/-- `_tick`. -/
def tick : Prog Site Bool := do
  if ← read Site.stopping then pure false
  else
    match ← sched.analyses.readNext around with
    | [] => sched.tickPrep around
    | entries => do
        processFirst around sched.analyses entries
        pure true

/-- The body of the loop of `run_forever`; the second read waits for `IDLE_BLOCK_MS`. -/
def iterate : Prog Site Unit := do
  if ← sched.tick around then pure ()
  else
    match ← sched.analyses.readNext around with
    | [] => pure ()
    | entries =>
        if ← read Site.stopping then pure ()
        else processFirst around sched.analyses entries

/-- What `run_forever` does before its loop. -/
def startUp : Prog Site Unit := do
  sched.analyses.reclaimStuckJobs around
  sched.songsPrep.reclaimStuckJobs around

end Scheduler

/-! ## The life of the worker -/

/-- Both streams with the worker process, which is down or at the top of the loop. -/
structure Process where
  site : Site := {}
  scheduler : Option Scheduler := none
  deriving DecidableEq, Repr

inductive QueueAction
  /-- The process starts, and is through its start-up unless it dies in it. -/
  | start (consumerName : ℕ) (around : Surroundings)
  /-- Once round the loop. -/
  | iterate (around : Surroundings)
  /-- The loop ends, as the process was asked to stop. -/
  | leave
  | kill
  /-- Others go on while the process is down, or between two iterations. -/
  | outside (events : List Event)

/-- The process after a program: it is where it was, unless it died. -/
def Process.ran (sched : Scheduler) : Option Unit × Site → Process
  | (some (), s) => ⟨s, some sched⟩
  | (none, s) => ⟨s, none⟩

/-- The site of a new process. -/
def Site.starting (s : Site) : Site :=
  { s with stopping := false, processed := [], failed := [], clock := 0 }

/-- The site at the top of the loop. -/
def Site.again (s : Site) : Site := { s with clock := 0 }

def queueStep (p : Process) : QueueAction → Option Process
  | .start consumerName around =>
      if p.scheduler = none then
        let sched := Scheduler.ofConsumer consumerName
        some (.ran sched (sched.startUp around p.site.starting))
      else none
  | .iterate around =>
      p.scheduler.bind fun sched =>
        if p.site.stopping then none
        else some (.ran sched (sched.iterate around p.site.again))
  | .leave => if p.scheduler.isSome ∧ p.site.stopping then some { p with scheduler := none } else none
  | .kill => some { p with scheduler := none }
  | .outside events => some { p with site := p.site.happen events }

/-- The process is at the top of its loop and goes round it again. -/
def Process.atBoundary (p : Process) : Prop := p.scheduler.isSome ∧ p.site.stopping = false

instance (p : Process) : Decidable p.atBoundary := inferInstanceAs (Decidable (_ ∧ _))

end VocalCoach
