/-
# Graceful stop

The worker with the pipelines it runs: `run_forever` of `queue/scheduler.py`, with
`reclaim_stuck_jobs` and `process_entry` of `queue/consumer.py`, `handle` of the two job
handlers and the loop of `PipelineRunner.run`.  `SIGTERM` may arrive before any operation and
sets the stop flag, which the scheduler hands to the runner as `should_stop`; at start-up,
`reclaim_stuck_jobs` hands it `lambda: False`.

A `Shift` is the site of the process with the saved stages of all jobs and a log of the pipeline
entries it has begun.  `stop_honoured`: no entry is begun after the signal if and only if the
signal does not arrive while the start-up reclaim has an entry left to begin; and a job that is
interrupted is left pending, with what it has finished saved.

An entry is begun when `should_stop` has let it pass; its retries are a part of it.  What a
handler records once its pipeline is over is one operation.
-/
import VocalCoach.Fallible
import VocalCoach.Runner
import VocalCoach.Sites

namespace VocalCoach

open RedisStream Fallible Machine

namespace Shutdown

open Pipeline (Completed Context Failures Mode Outcome runEntry remainingEntries stagesForMode
  flatten)

/-! ## The worker and its pipelines -/

/-- What `build_stages` and `build_prep_stages` set up, and the job of an id. -/
structure Pipelines (Job Data : Type) where
  stages : StreamName → List (Pipeline.Entry Job Data)
  mode : StreamName → JobId → Option Mode
  job : StreamName → JobId → Job

/-- How the handlers fare in one start-up or iteration: the executions of stages that fail, and
the operations that raise something other than a `PipelineError`. -/
structure Mishaps where
  fails : StreamName → JobId → Failures := fun _ _ _ _ => none
  crashes : ℕ → Bool := fun _ => false

/-- A pipeline entry is begun: for which job, after how many operations, and whether the process
had been asked to stop. -/
structure Begun where
  stream : StreamName
  job : JobId
  members : List String
  clock : ℕ
  stopping : Bool
  deriving DecidableEq, Repr

/-- A handler returns `False`; `completed` is what the runner knows to be finished. -/
structure Interruption (Data : Type) where
  stream : StreamName
  entry : ℕ
  job : JobId
  completed : Completed Data

/-- The site of the process, `stages_json` and `prep_stages_json`, and the logs. -/
structure Shift (Data : Type) where
  site : Site := {}
  stages : StreamName → JobId → Completed Data := fun _ _ _ => none
  begun : List Begun := []
  interrupted : List (Interruption Data) := []

/-- The process dies, or a handler raises. -/
inductive Exit
  | died
  | crashed
  deriving DecidableEq, Repr

abbrev Work (Data α : Type) := EStateM Exit (Shift Data) α

section Programs

variable {Job Data : Type} (around : Surroundings) (mishaps : Mishaps) (pipes : Pipelines Job Data)

/-- A program on the streams. -/
def onSite {α : Type} (x : Program.Prog Site α) : Work Data α := fun w =>
  match x w.site with
  | (some a, s) => .ok a { w with site := s }
  | (none, s) => .error .died { w with site := s }

/-- One operation of a handler. -/
def attempt {α : Type} (f : Shift Data → α × Shift Data) : Work Data α := fun w =>
  let found := { w with site := w.site.meanwhile around }
  if around.diesAt = some w.site.clock then .error .died found
  else if mishaps.crashes w.site.clock then .error .crashed found
  else
    let (a, t) := f found
    .ok a t

/-! ### `PipelineRunner.run` -/

/-- The entry is begun. -/
def Shift.begin (name : StreamName) (job : JobId) (entry : Pipeline.Entry Job Data)
    (w : Shift Data) : Shift Data :=
  { w with
    begun := w.begun ++ [⟨name, job, entry.members.map Pipeline.PipelineStage.name, w.site.clock,
      w.site.stopping⟩] }

/-- `save_stage_progress`. -/
def Shift.save (name : StreamName) (job : JobId) (r : Pipeline.StageResult Data)
    (w : Shift Data) : Shift Data :=
  { w with
    stages := Function.update w.stages name (Function.update (w.stages name) job
      (Function.update (w.stages name job) r.stage (some r))) }

def saveEach (name : StreamName) (job : JobId) :
    List (Pipeline.StageResult Data) → Work Data Unit
  | [] => pure ()
  | r :: results => do
      attempt around mishaps fun w => ((), w.save name job r)
      saveEach name job results

/-- The loop of `run`. -/
def runEntries (name : StreamName) (job : JobId) (shouldStop : Site → Bool) :
    List (Pipeline.Entry Job Data) → Context Job Data → Work Data (Outcome × Context Job Data)
  | [], context => pure (.completed, context)
  | entry :: entries, context => do
      if ← look fun w : Shift Data => shouldStop w.site then
        pure (.interrupted, context)
      else
        modify (Shift.begin name job entry)
        -- `publish_stage` of the members
        attempt around mishaps fun w => ((), w)
        match ← attempt around mishaps fun w =>
          ((runEntry (mishaps.fails name job) context entry).1, w) with
        | .error e => pure (.raised e, context)
        | .ok results => do
            saveEach around mishaps name job results
            runEntries name job shouldStop entries (results.foldl Context.withResult context)

/-- `run`. -/
def run (name : StreamName) (job : JobId) (shouldStop : Site → Bool)
    (alreadyDone : Completed Data) : Work Data (Outcome × Context Job Data) := do
  let activeStages := stagesForMode (pipes.stages name) (pipes.mode name job)
  let remaining := remainingEntries activeStages alreadyDone
  if (flatten remaining).isEmpty then
    pure ()
  else
    -- `mark_processing`
    attempt around mishaps fun w => ((), w)
  runEntries around mishaps name job shouldStop remaining
    { job := pipes.job name job, completed := alreadyDone }

/-! ### The handlers -/

/-- `handle`: a `PipelineError` is recorded, as is a pipeline that is through. -/
def handle (name : StreamName) (entry : ℕ) (job : JobId) (shouldStop : Site → Bool) :
    Work Data Bool := do
  let alreadyDone ← attempt around mishaps fun w => (w.stages name job, w)
  let (outcome, context) ← run around mishaps pipes name job shouldStop alreadyDone
  match outcome with
  | .interrupted => do
      modify fun w =>
        { w with interrupted := w.interrupted ++ [⟨name, entry, job, context.completed⟩] }
      return false
  | _ => do
      attempt around mishaps fun w => ((), w)
      return true

/-! ### `Consumer` -/

/-- `process_entry`: an exception is logged, and the entry left as it is. -/
def processEntry (c : Consumer) (entry : ℕ) (fields : Option JobId)
    (shouldStop : Site → Bool) : Work Data Unit := do
  match fields with
  | none => onSite (c.ackAndRemove around entry)
  | some job => do
      let terminal ← tryCatch (handle around mishaps pipes c.streamName entry job shouldStop)
        fun e => if e = .crashed then pure false else throw e
      if terminal then
        onSite (c.ackAndRemove around entry)
      else
        pure ()

/-- What `reclaim_stuck_jobs` does with one pending entry. -/
def reclaimOne (c : Consumer) (d : Delivery) : Work Data Unit :=
  if c.maxClaimAttempts < d.timesDelivered then
    onSite (c.giveUp around d.id)
  else do
    match ← onSite (c.claim around d.id) with
    | none => pure ()
    | some fields => processEntry around mishaps pipes c d.id fields fun _ => false

def reclaimEach (c : Consumer) : List Delivery → Work Data Unit
  | [] => pure ()
  | d :: pending => do
      reclaimOne around mishaps pipes c d
      reclaimEach c pending

/-- `reclaim_stuck_jobs`. -/
def reclaimStuckJobs (c : Consumer) : Work Data Unit := do
  let pending ← onSite (operate around fun s =>
    ((s.stream c.streamName).xpending none c.reclaimMinIdleSeconds s.now reclaimBatchSize, s))
  reclaimEach around mishaps pipes c pending

/-! ### `Scheduler` -/

/-- `_process_first`. -/
def processFirst (c : Consumer) : List (Entry (Option JobId)) → Work Data Unit
  | [] => pure ()
  | e :: messages => do
      if ← look fun w : Shift Data => w.site.stopping then
        pure ()
      else
        processEntry around mishaps pipes c e.id e.fields Site.stopping
        processFirst c messages

variable (sched : Scheduler)

/-- The loop of `_process_priority_prep`. -/
def processMatching (songId : JobId) : List Delivery → Work Data Bool
  | [] => pure false
  | d :: pending => do
      let fields ← onSite (sched.songsPrep.fieldsFor around d.id)
      if fields = some (some songId) then
        processEntry around mishaps pipes sched.songsPrep d.id (some songId) Site.stopping
        pure true
      else
        processMatching songId pending

/-- `_process_priority_prep`. -/
def processPriorityPrep (songId : JobId) : Work Data Bool := do
  onSite (sched.songsPrep.claimNewEntries around)
  let pending ← onSite (sched.songsPrep.pendingEntries around)
  processMatching around mishaps pipes sched songId pending

/-- `_process_next_prep`. -/
def processNextPrep : Work Data Bool := do
  onSite (sched.songsPrep.claimNewEntries around)
  match ← onSite (sched.songsPrep.pendingEntries around) with
  | [] => pure false
  | d :: _ =>
      match ← onSite (sched.songsPrep.fieldsFor around d.id) with
      | none => pure false
      | some fields => do
          processEntry around mishaps pipes sched.songsPrep d.id fields Site.stopping
          pure true

/-- The part of `_tick` about `songs:prep`. -/
def tickPrep : Work Data Bool := do
  match ← onSite (Scheduler.oldestWaitingSongId around) with
  | none => processNextPrep around mishaps pipes sched
  | some songId =>
      if ← processPriorityPrep around mishaps pipes sched songId then
        pure true
      else
        processNextPrep around mishaps pipes sched

/-- `_tick`. -/
def tick : Work Data Bool := do
  if ← look fun w : Shift Data => w.site.stopping then
    pure false
  else
    match ← onSite (sched.analyses.readNext around) with
    | [] => tickPrep around mishaps pipes sched
    | entries => do
        processFirst around mishaps pipes sched.analyses entries
        pure true

/-- The body of the loop of `run_forever`. -/
def iterate : Work Data Unit := do
  if ← tick around mishaps pipes sched then
    pure ()
  else
    match ← onSite (sched.analyses.readNext around) with
    | [] => pure ()
    | entries =>
        if ← look fun w : Shift Data => w.site.stopping then
          pure ()
        else
          processFirst around mishaps pipes sched.analyses entries

/-- What `run_forever` does before its loop. -/
def startUp : Work Data Unit := do
  reclaimStuckJobs around mishaps pipes sched.analyses
  reclaimStuckJobs around mishaps pipes sched.songsPrep

end Programs

/-! ## The life of the worker -/

/-- The worker is down, or at the top of its loop. -/
structure Running (Data : Type) where
  shift : Shift Data := {}
  scheduler : Option Scheduler := none

inductive WorkAction
  | start (consumerName : ℕ) (around : Surroundings) (mishaps : Mishaps)
  | iterate (around : Surroundings) (mishaps : Mishaps)
  | leave
  | kill
  | outside (events : List Event)

/-- The worker after a program: it is where it was, unless it died. -/
def Running.ran {Data : Type} (sched : Scheduler) :
    EStateM.Result Exit (Shift Data) Unit → Running Data
  | .ok _ w => ⟨w, some sched⟩
  | .error _ w => ⟨w, none⟩

/-- The shift of a new process. -/
def Shift.starting {Data : Type} (w : Shift Data) : Shift Data :=
  { w with site := w.site.starting, interrupted := [] }

/-- The shift at the top of the loop. -/
def Shift.again {Data : Type} (w : Shift Data) : Shift Data := { w with site := w.site.again }

def workStep {Job Data : Type} (pipes : Pipelines Job Data) (r : Running Data) :
    WorkAction → Option (Running Data)
  | .start consumerName around mishaps =>
      if r.scheduler = none then
        let sched := Scheduler.ofConsumer consumerName
        some (.ran sched (startUp around mishaps pipes sched r.shift.starting))
      else none
  | .iterate around mishaps =>
      r.scheduler.bind fun sched =>
        if r.shift.site.stopping then none
        else some (.ran sched (iterate around mishaps pipes sched r.shift.again))
  | .leave =>
      if r.scheduler.isSome ∧ r.shift.site.stopping then some { r with scheduler := none } else none
  | .kill => some { r with scheduler := none }
  | .outside events =>
      some { r with shift := { r.shift with site := r.shift.site.happen events } }

end Shutdown

end VocalCoach
