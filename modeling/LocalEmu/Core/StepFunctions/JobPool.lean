import LocalEmu.Base.Pool

/-!
# Job Pools

The items of a Map state are the jobs of a pool. Workers take jobs out of the pool,
evaluate them, and close them; a worker closes a job only after it has asked for the
next one. The Map state waits until the pool has terminated: all jobs are closed, or a
job has failed.

The methods of the pool hold its lock, and are one step each. What the evaluation of a
job results in is part of the step that evaluates it. `handed` and `evaluated` are no
part of the pool: they record what has happened. The frames that a worker opens and
closes are left out, and so is `sig_stop`, which nothing calls.
-/

namespace LocalEmu.StepFunctions

variable {Item Output Failure : Type}

structure Job (Item : Type) where
  jobIndex : Nat
  jobInput : Item
  deriving DecidableEq

structure JobClosed (Output : Type) where
  jobIndex : Nat
  jobOutput : Output
  deriving DecidableEq

/-- `JobPool`. The open jobs are in the order in which they are popped. -/
structure JobPool (Item Output Failure : Type) where
  terminationEvent : Bool
  workerException : Option Failure
  jobsNumber : Nat
  openJobs : List (Job Item)
  closedJobs : List (JobClosed Output)

def jobsOf (items : List Item) : List (Job Item) :=
  items.zipIdx.map fun entry => ⟨entry.2, entry.1⟩

namespace JobPool

def ofItems (items : List Item) : JobPool Item Output Failure :=
  ⟨false, none, items.length, jobsOf items, []⟩

variable (pool : JobPool Item Output Failure)

def nextJob : Option (Job Item) × JobPool Item Output Failure :=
  match pool.workerException, pool.openJobs with
  | some _, _ => (none, pool)
  | none, [] => (none, pool)
  | none, job :: jobs => (some job, { pool with openJobs := jobs })

def isTerminated : Bool :=
  pool.closedJobs.length == pool.jobsNumber || pool.workerException.isSome

def notifyOnTermination : JobPool Item Output Failure :=
  { pool with terminationEvent := pool.terminationEvent || pool.isTerminated }

/-- `close_job`. Once the pool has terminated, nothing is closed any more. -/
def closeJob (job : Job Item) (jobOutput : Except Failure Output) : JobPool Item Output Failure :=
  if pool.isTerminated then pool
  else
    match jobOutput with
    | .error failure => notifyOnTermination { pool with workerException := some failure }
    | .ok output => notifyOnTermination
        { pool with closedJobs := pool.closedJobs ++ [⟨job.jobIndex, output⟩] }

def getClosedJobs : List (JobClosed Output) :=
  pool.closedJobs.mergeSort fun a b => decide (a.jobIndex ≤ b.jobIndex)

end JobPool

/-- A worker, in `_eval_pool`. -/
inductive Worker (Item Output Failure : Type)
  | starting
  | evaluating (job : Job Item)
  | evaluated (job : Job Item) (jobOutput : Except Failure Output)
  | closing (job : Job Item) (output : Output) (nextJob : Option (Job Item))
  | done

/-- The Map state, in `await_jobs`. -/
inductive Waiter
  | entered
  | waiting
  | returned
  deriving DecidableEq

/-- A Map state: its pool, its workers, and what has happened. -/
structure MapState (Item Output Failure : Type) where
  pool : JobPool Item Output Failure
  workers : List (Worker Item Output Failure)
  waiter : Waiter
  handed : List (Nat × Job Item)
  evaluated : List (Job Item × Except Failure Output)

/-- A step: of a worker, of a worker that is done with its evaluation, or of the Map state. -/
inductive MapStep (Output Failure : Type)
  | work (worker : Nat)
  | evaluate (worker : Nat) (jobOutput : Except Failure Output)
  | await

namespace MapState

def initial (items : List Item) (workers : Nat) : MapState Item Output Failure :=
  ⟨.ofItems items, List.replicate workers .starting, .entered, [], []⟩

variable (state : MapState Item Output Failure)

def become (number : Nat) (worker : Worker Item Output Failure) : MapState Item Output Failure :=
  { state with workers := state.workers.set number worker }

def handOut (number : Nat) : MapState Item Output Failure :=
  { state with
    pool := state.pool.nextJob.2
    handed := state.handed ++ (state.pool.nextJob.1.toList.map fun job => (number, job)) }

/-- What a worker goes on with, after it has asked for a job. -/
def goOn : Option (Job Item) → Worker Item Output Failure
  | none => .done
  | some job => .evaluating job

def step : MapStep Output Failure → Option (MapState Item Output Failure)
  | .work number =>
    match state.workers[number]? with
    | some .starting => some ((state.handOut number).become number (goOn state.pool.nextJob.1))
    | some (.evaluated job (.ok output)) =>
      some ((state.handOut number).become number (.closing job output state.pool.nextJob.1))
    -- Evaluation terminates here due to exception in job.
    | some (.evaluated job (.error failure)) =>
      some ({ state with pool := state.pool.closeJob job (.error failure) }.become number .done)
    | some (.closing job output nextJob) =>
      some ({ state with pool := state.pool.closeJob job (.ok output) }.become number
        (goOn nextJob))
    | _ => none
  | .evaluate number jobOutput =>
    match state.workers[number]? with
    | some (.evaluating job) =>
      some ({ state with evaluated := state.evaluated ++ [(job, jobOutput)] }.become number
        (.evaluated job jobOutput))
    | _ => none
  | .await =>
    match state.waiter with
    | .entered =>
      some { state with
        waiter := if state.pool.isTerminated then .returned else .waiting }
    | .waiting => if state.pool.terminationEvent then some { state with waiter := .returned }
        else none
    | .returned => none

end MapState

end LocalEmu.StepFunctions
