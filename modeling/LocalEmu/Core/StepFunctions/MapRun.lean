import LocalEmu.Base.Pool
import LocalEmu.Core.StepFunctions.Environment

/-!
# Counters Of Distributed Map Runs

The workers of a distributed Map run count what happens to their jobs, once for
the items and once for the executions. A counter has a lock of its own, so that
one update is a step, and the updates of several workers may come in any order.

The worker for item processors and the one for iterators count in the same way.
-/

namespace LocalEmu.StepFunctions.MapRun

/-- The two records of a map run. -/
inductive Record
  | item
  | execution
  deriving DecidableEq

/-- The counters of a `ProgressCounter`. -/
inductive Field
  | aborted
  | failed
  | pending
  | resultsWritten
  | running
  | succeeded
  | timedOut
  | total
  deriving DecidableEq

/-- A counter of a `MapRunRecord`. -/
structure Counter where
  record : Record
  field : Field
  deriving DecidableEq

abbrev Counts := Counter → Int

/-- `Counter.offset`: an update of one counter. -/
structure Update where
  counter : Counter
  offset : Int
  deriving DecidableEq

def count (record : Record) (field : Field) : Update := ⟨⟨record, field⟩, 1⟩

def Update.adds (update : Update) (counter : Counter) : Int :=
  if update.counter = counter then update.offset else 0

/-- The counters after an update. -/
def Update.apply (update : Update) (counts : Counts) : Counts :=
  fun counter => counts counter + update.adds counter

/-- How the evaluation of a job ends: with a program state, or with an exception
    that is raised on the way. -/
inductive JobEnd
  | program (state : ProgramState)
  | timeoutError
  | failureEvent
  | exception
  deriving DecidableEq

/-- The updates at the start of `_eval_job`. -/
def startCounts : List Update :=
  [count .item .total, count .item .running, count .execution .total, count .execution .running]

/-- The updates of the branch for the end of a job. -/
def branchCounts : JobEnd → List Update
  | .program (.error _) => [count .execution .failed, count .item .failed]
  | .program (.stopped _ _ _) => [count .execution .aborted, count .item .aborted]
  | .program _ =>
    [count .item .succeeded, count .item .resultsWritten, count .execution .succeeded,
      count .execution .resultsWritten, ⟨⟨.execution, .running⟩, -1⟩]
  | .timeoutError => [count .item .timedOut]
  | .failureEvent => [count .item .failed]
  | .exception => [count .item .failed]

/-- The updates after the evaluation of a job, with those of `finally`. -/
def endCounts (jobEnd : JobEnd) : List Update :=
  branchCounts jobEnd ++ [⟨⟨.item, .running⟩, -1⟩]

/-- A worker is inside `_eval_job`, with updates to make before or after the job is
    evaluated, or it is not. -/
inductive Worker
  | outside
  | inside (updates : List Update) (evaluated : Bool)
  deriving DecidableEq

/-- What a worker does. -/
inductive Action
  | enter
  | update
  | evaluate (jobEnd : JobEnd)
  | leave
  deriving DecidableEq

/-- A step of a worker. -/
def Worker.act (counts : Counts) : Worker → Action → Option (Counts × Worker)
  | .outside, .enter => some (counts, .inside startCounts false)
  | .inside (update :: updates) evaluated, .update =>
    some (update.apply counts, .inside updates evaluated)
  | .inside [] false, .evaluate jobEnd => some (counts, .inside (endCounts jobEnd) true)
  | .inside [] true, .leave => some (counts, .outside)
  | _, _ => none

/-- The start of a run, with any number of workers. -/
def start (workers : Nat) : Pool Counts Worker :=
  ⟨fun _ => 0, List.replicate workers .outside⟩

end LocalEmu.StepFunctions.MapRun
