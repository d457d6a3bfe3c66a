/-
# The pipeline runner

`pipeline/runner.py`: `PipelineRunner.run` over a list of entries, each a stage or a
`ParallelGroup`, with the context of `models/context.py` and the stage contract of
`pipeline/base.py`.

A stage is a function of the context.  Whether its k-th execution in a run succeeds is up to
`Failures`: an execution that fails does so with a `PipelineError`, transient (a timeout, a
crash) or logical, as `_join_subprocess` hands it to the parent.
-/
import VocalCoach.Errors
import Mathlib.Data.Nat.Notation
import Mathlib.Logic.Function.Basic

namespace VocalCoach.Pipeline

/-- `MAX_STAGE_RETRIES`. -/
def maxStageRetries : ℕ := 2

inductive Mode
  | clean
  | mixed
  deriving DecidableEq, Repr

inductive StageStatus
  | done
  | failed
  | skipped
  deriving DecidableEq, Repr

/-- `StageResult`. -/
structure StageResult (Data : Type) where
  stage : String
  status : StageStatus
  durationMs : ℕ
  data : Option Data := none
  errorCode : Option String := none
  errorMessage : Option String := none
  deriving DecidableEq, Repr

/-- A `PipelineError` as the runner sees it: its class as far as retries go, its code and its
message. -/
structure PipelineError where
  retry : RetryClass
  errorCode : String
  message : String
  deriving DecidableEq, Repr

variable {Job Data : Type}

/-- The results of the stages that have completed, by name. -/
abbrev Completed (Data : Type) := String → Option (StageResult Data)

/-- `PipelineContext`: what the job is about, and what has been completed. -/
structure Context (Job Data : Type) where
  job : Job
  completed : Completed Data

/-- `with_result`. -/
def Context.withResult (c : Context Job Data) (r : StageResult Data) : Context Job Data :=
  { c with completed := Function.update c.completed r.stage (some r) }

/-- `PipelineStage`.  `produce` is `run`: how long it takes and the data it returns. -/
structure PipelineStage (Job Data : Type) where
  name : String
  required : Bool := true
  modes : List Mode := [.clean, .mixed]
  produce : Context Job Data → ℕ × Option Data

/-- What an execution that succeeds returns. -/
def PipelineStage.run (s : PipelineStage Job Data) (c : Context Job Data) : StageResult Data :=
  { stage := s.name, status := .done, durationMs := (s.produce c).1, data := (s.produce c).2 }

/-- An entry of the list of stages. -/
inductive Entry (Job Data : Type)
  | stage (s : PipelineStage Job Data)
  /-- `ParallelGroup`. -/
  | group (stages : List (PipelineStage Job Data))

/-- `_members`. -/
def Entry.members : Entry Job Data → List (PipelineStage Job Data)
  | .stage s => [s]
  | .group stages => stages

/-! ## Which stages run -/

/-- `_flatten`. -/
def flatten (entries : List (Entry Job Data)) : List (PipelineStage Job Data) :=
  entries.flatMap Entry.members

/-- The entry with the members that are kept, if any is. -/
def Entry.restrict (keep : PipelineStage Job Data → Bool) : Entry Job Data → Option (Entry Job Data)
  | .stage s => if keep s then some (.stage s) else none
  | .group stages =>
      let members := stages.filter keep
      if members.isEmpty then none else some (.group members)

/-- `_remaining_entries`. -/
def remainingEntries (entries : List (Entry Job Data)) (alreadyDone : Completed Data) :
    List (Entry Job Data) :=
  entries.filterMap (Entry.restrict fun s => (alreadyDone s.name).isNone)

/-- `_stages_for_mode`. -/
def stagesForMode (entries : List (Entry Job Data)) : Option Mode → List (Entry Job Data)
  | none => entries
  | some mode => entries.filterMap (Entry.restrict fun s => decide (mode ∈ s.modes))

/-! ## One entry -/

/-- Which executions fail: of the stage with this name, the k-th in a run. -/
abbrev Failures := String → ℕ → Option PipelineError

/-- How the executions of a stage end. -/
inductive Verdict
  | succeeded
  /-- The stage is optional, and its failure is recorded. -/
  | skipped (e : PipelineError)
  | raised (e : PipelineError)
  deriving DecidableEq, Repr

/-- A failure that is not retried. -/
def giveUp (required : Bool) (e : PipelineError) : Verdict :=
  if required then .raised e else .skipped e

/-- `_run_stage_with_retries` from the k-th execution on, with `left` retries left: how it
ends, and after how many executions. -/
def settle (required : Bool) (fails : ℕ → Option PipelineError) : ℕ → ℕ → Verdict × ℕ
  | left, k =>
    match fails k with
    | none => (.succeeded, 1)
    | some e =>
      match e.retry, left with
      | .logical, _ => (giveUp required e, 1)
      | .transient, 0 => (giveUp required e, 1)
      | .transient, left + 1 =>
          let rest := settle required fails left (k + 1)
          (rest.1, rest.2 + 1)

/-- A stage that runs by itself. -/
def alone (fails : Failures) (s : PipelineStage Job Data) : Verdict × ℕ :=
  settle s.required (fails s.name) maxStageRetries 0

/-- A member of a group, which has been started once with the others and, if that failed
transiently, runs by itself: how it ends, and how often it is executed again. -/
def inGroup (fails : Failures) (s : PipelineStage Job Data) : Verdict × ℕ :=
  match fails s.name 0 with
  | none => (.succeeded, 0)
  | some e =>
      match e.retry with
      | .logical => (giveUp s.required e, 0)
      | .transient => settle s.required (fails s.name) maxStageRetries 1

/-- `_skipped_result`. -/
def skippedResult (s : PipelineStage Job Data) (e : PipelineError) : StageResult Data :=
  { stage := s.name
    status := .skipped
    durationMs := 0
    errorCode := some e.errorCode
    errorMessage := some e.message }

/-- The result of a stage, or the error it raises. -/
def Verdict.result (v : Verdict) (s : PipelineStage Job Data) (c : Context Job Data) :
    Except PipelineError (StageResult Data) :=
  match v with
  | .succeeded => .ok (s.run c)
  | .skipped e => .ok (skippedResult s e)
  | .raised e => .error e

/-- The loop of `_run_group_with_retries` over the members, once they have been started: their
results, or the first error, and what is executed again. -/
def runMembers (fails : Failures) (c : Context Job Data) :
    List (PipelineStage Job Data) → Except PipelineError (List (StageResult Data)) × List String
  | [] => (.ok [], [])
  | s :: members =>
      let (verdict, again) := inGroup fails s
      match verdict.result s c with
      | .error e => (.error e, List.replicate again s.name)
      | .ok r =>
          let rest := runMembers fails c members
          (rest.1.map (r :: ·), List.replicate again s.name ++ rest.2)

/-- `_run_entry_with_retries`: the results of the members, or an error, and every execution. -/
def runEntry (fails : Failures) (c : Context Job Data) :
    Entry Job Data → Except PipelineError (List (StageResult Data)) × List String
  | .stage s =>
      let (verdict, executions) := alone fails s
      ((verdict.result s c).map ([·]), List.replicate executions s.name)
  | .group members =>
      let rest := runMembers fails c members
      (rest.1, members.map PipelineStage.name ++ rest.2)

/-! ## A run -/

/-- A call of `save_stage_progress`. -/
structure Progress (Data : Type) where
  result : StageResult Data
  nextStage : Option String
  nextStageIndex : Option ℕ
  totalStages : ℕ
  deriving DecidableEq, Repr

/-- How a run ends: `RunOutcome`, or the error it raises. -/
inductive Outcome
  | completed
  | interrupted
  | raised (e : PipelineError)
  deriving DecidableEq, Repr

/-- What a run does. -/
structure Report (Job Data : Type) where
  /-- The call of `mark_processing`. -/
  marked : Option (String × ℕ × ℕ) := none
  /-- The calls of `publish_stage`. -/
  published : List (String × ℕ × ℕ) := []
  executed : List String := []
  saved : List (Progress Data) := []
  outcome : Outcome
  context : Context Job Data

/-- What `run` works out before its loop. -/
structure Plan (Job Data : Type) where
  positions : String → ℕ
  total : ℕ
  remainingFlat : List (PipelineStage Job Data)

/-- `stage_positions`: a later stage of the same name overwrites an earlier one. -/
def stagePositions (flat : List (PipelineStage Job Data)) : String → ℕ :=
  flat.zipIdx.foldl (fun positions p => Function.update positions p.1.name (p.2 + 1)) fun _ => 0

/-- The calls of `save_stage_progress` for results of which the first is at `position`. -/
def Plan.saves (plan : Plan Job Data) : ℕ → List (StageResult Data) → List (Progress Data)
  | _, [] => []
  | position, r :: results =>
      let next := plan.remainingFlat[position + 1]?
      { result := r
        nextStage := next.map PipelineStage.name
        nextStageIndex := next.map fun s => plan.positions s.name
        totalStages := plan.total } :: plan.saves (position + 1) results

/-- The loop of `run`.  `stops` is what `should_stop` answers, turn by turn. -/
def runEntries (plan : Plan Job Data) (fails : Failures) (stops : ℕ → Bool) :
    List (Entry Job Data) → ℕ → ℕ → Context Job Data → Report Job Data
  | [], _, _, context => { outcome := .completed, context }
  | entry :: entries, turn, position, context =>
      if stops turn then { outcome := .interrupted, context }
      else
        let published := entry.members.map fun s => (s.name, plan.positions s.name, plan.total)
        match runEntry fails context entry with
        | (.error e, executed) => { published, executed, outcome := .raised e, context }
        | (.ok results, executed) =>
            let rest := runEntries plan fails stops entries (turn + 1)
              (position + results.length) (results.foldl Context.withResult context)
            { rest with
              published := published ++ rest.published
              executed := executed ++ rest.executed
              saved := plan.saves position results ++ rest.saved }

/-- `PipelineRunner.run`. -/
def run (entries : List (Entry Job Data)) (initial : Context Job Data)
    (alreadyDone : Completed Data) (fails : Failures) (stops : ℕ → Bool) (mode : Option Mode) :
    Report Job Data :=
  let context :=
    { initial with completed := fun name => (alreadyDone name).or (initial.completed name) }
  let activeStages := stagesForMode entries mode
  let flatAll := flatten activeStages
  let remaining := remainingEntries activeStages alreadyDone
  let plan : Plan Job Data :=
    { positions := stagePositions flatAll
      total := flatAll.length
      remainingFlat := flatten remaining }
  { runEntries plan fails stops remaining 0 0 context with
    marked := plan.remainingFlat.head?.map fun first =>
      (first.name, plan.positions first.name, plan.total) }

end VocalCoach.Pipeline
