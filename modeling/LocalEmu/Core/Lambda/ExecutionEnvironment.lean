import LocalEmu.Core.Lambda.CountingService

/-!
# Execution Environments Of Functions

An execution environment is started, reserved for an invocation, released and
stopped. Its status is changed under a lock, and every method but one asks first
whether the status allows it. The exception is the end of `start`: the runtime is
started outside of the lock, and when that is done the environment is ready,
whatever happened to it in the meantime.

A step is one section under the lock. `start` has two, and what the runtime
does between them is not a step.

## Main definitions

* `RuntimeStatus`, `ExecutionEnvironment`: An environment.
* `startEntry`, `startCompleted`, `stop`, `release`, `reserve`,
  `keepalivePassed`, `timedOut`, `errored`: The sections.
-/

namespace LocalEmu.Lambda

inductive RuntimeStatus
  | inactive
  | starting
  | ready
  | invoking
  | startupFailed
  | startupTimedOut
  | stopped
  | timingOut
  deriving DecidableEq

def RuntimeStatus.name : RuntimeStatus → String
  | .inactive => "RuntimeStatus.INACTIVE"
  | .starting => "RuntimeStatus.STARTING"
  | .ready => "RuntimeStatus.READY"
  | .invoking => "RuntimeStatus.INVOKING"
  | .startupFailed => "RuntimeStatus.STARTUP_FAILED"
  | .startupTimedOut => "RuntimeStatus.STARTUP_TIMED_OUT"
  | .stopped => "RuntimeStatus.STOPPED"
  | .timingOut => "RuntimeStatus.TIMING_OUT"

structure InvalidStatusException where
  message : String
  deriving DecidableEq

/-- `ExecutionEnvironment`. A call of `start` is in flight from its first section
    to its second. A keepalive timer that was started may fire at any later time:
    to cancel it has no effect once its thread is on the way. -/
structure ExecutionEnvironment where
  id : String
  initializationType : InitializationType
  status : RuntimeStatus
  startInFlight : Bool
  keepaliveStarted : Bool
  deriving DecidableEq

namespace ExecutionEnvironment

def new (id : String) (initializationType : InitializationType) : ExecutionEnvironment :=
  ⟨id, initializationType, .inactive, false, false⟩

variable (env : ExecutionEnvironment)

/-- The exception of a method that does not fit the status. -/
def invalidStatus (reason : String) : InvalidStatusException :=
  ⟨"Execution environment " ++ env.id ++ reason ++ " Current status: " ++ env.status.name⟩

/-- The first section of `start`. -/
def startEntry : Except InvalidStatusException ExecutionEnvironment :=
  if env.status = .inactive then .ok { env with status := .starting, startInFlight := true }
  else .error (env.invalidStatus " can only be started when inactive.")

/-- The second section of `start`, after the runtime has started. -/
def startCompleted : ExecutionEnvironment :=
  { env with status := .ready, startInFlight := false }

/-- The runtime did not start. What `start` does then is `errored`, unless it
    finds that the startup has timed out. -/
def startRaised : ExecutionEnvironment :=
  { env with startInFlight := false }

def stop : Except InvalidStatusException ExecutionEnvironment :=
  if env.status = .inactive ∨ env.status = .stopped then
    .error (env.invalidStatus " cannot be stopped when inactive or already stopped.")
  else .ok { env with status := .stopped }

/-- `release`. An environment on demand gets a keepalive timer. -/
def release : Except InvalidStatusException ExecutionEnvironment :=
  if env.status = .invoking then
    .ok { env with
      status := .ready
      keepaliveStarted := env.keepaliveStarted || decide (env.initializationType = .onDemand) }
  else .error (env.invalidStatus " can only be set to status ready while running.")

def reserve : Except InvalidStatusException ExecutionEnvironment :=
  if env.status = .ready then .ok { env with status := .invoking }
  else .error (env.invalidStatus " can only be reserved if ready. ")

/-- The section of `keepalive_passed`. If the environment is not ready, the
    method returns. Otherwise it goes on with `stop`. -/
def keepalivePassed : ExecutionEnvironment :=
  if env.status = .ready then { env with status := .timingOut } else env

def timedOut : Except InvalidStatusException ExecutionEnvironment :=
  if env.status = .starting then .ok { env with status := .startupTimedOut }
  else .error (env.invalidStatus " can only time out while starting.")

def errored : Except InvalidStatusException ExecutionEnvironment :=
  if env.status = .starting then .ok { env with status := .startupFailed }
  else .error (env.invalidStatus " can only error while starting.")

end ExecutionEnvironment

/-- A section of one of the methods. -/
inductive Operation
  | start
  | startCompleted
  | startRaised
  | stop
  | release
  | reserve
  | keepalivePassed
  | timedOut
  | errored
  deriving DecidableEq

namespace ExecutionEnvironment

/-- What is left of an environment: a section that raises changes nothing. -/
def orSame (env : ExecutionEnvironment)
    (result : Except InvalidStatusException ExecutionEnvironment) : ExecutionEnvironment :=
  match result with
  | .ok env' => env'
  | .error _ => env

/-- One section, by some thread. The second section of `start` needs a call that is in flight. -/
def apply (env : ExecutionEnvironment) : Operation → Option ExecutionEnvironment
  | .start => some (env.orSame env.startEntry)
  | .startCompleted => if env.startInFlight then some env.startCompleted else none
  | .startRaised => if env.startInFlight then some env.startRaised else none
  | .stop => some (env.orSame env.stop)
  | .release => some (env.orSame env.release)
  | .reserve => some (env.orSame env.reserve)
  | .keepalivePassed => some env.keepalivePassed
  | .timedOut => some (env.orSame env.timedOut)
  | .errored => some (env.orSame env.errored)

end ExecutionEnvironment

end LocalEmu.Lambda
