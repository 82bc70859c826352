import LocalEmu.Core.Lambda.ExecutionEnvironment

/-!
# The Assignment Service

An invocation gets an execution environment from the assignment service. It
tries to reserve those that are there, one after the other, and if none of them
can be reserved it starts a new one. The new environment is first entered into
the table, where other invocations find it, and only then reserved.

The version is fixed and the leases are on demand. Any number of invocations ask
for an environment at the same time, each is a thread, and so is every keepalive
timer that fires. A step is a section under a lock. The environments start
without error.
-/

namespace LocalEmu.Lambda

/-- The environments that were made, those in the table of the version, and the
    starts that the semaphore still allows. -/
structure Assignments where
  objects : Dict String ExecutionEnvironment
  environments : List String
  onDemandStarts : Nat

/-- Where a thread is. -/
inductive Thread
  /-- Before the snapshot of the table. -/
  | snapshot
  /-- In the loop over the environments of the snapshot. -/
  | scan (remaining : List String)
  /-- No environment could be reserved: before the semaphore. -/
  | acquire
  | start
  /-- The runtime of a new environment is being started. -/
  | starting (env : String)
  | releaseSemaphore (env : String)
  | publish (env : String)
  /-- The new environment is in the table and not reserved yet. -/
  | reserveNew (env : String)
  /-- In the body of the `with` statement. -/
  | yielded (env : String)
  /-- The body raised, and the environment is not on demand: before it is released. -/
  | restoring (env : String)
  /-- The body raised: in `stop_environment`. -/
  | stopping (env : String)
  | removing (env : String)
  | returned
  /-- The exception of the body is raised again. -/
  | bodyRaised
  /-- `reserve` raised outside of the loop. -/
  | raised (error : InvalidStatusException)
  /-- A keepalive timer has fired. -/
  | keepalive (env : String)
  | keepaliveStop (env : String)
  | onTimeout (env : String)
  | timerDone
  deriving DecidableEq

/-- What a thread does not decide itself: the identifier of a new environment,
    and how the body ends. -/
inductive Choice
  | proceed
  | create (id : String)
  | bodyRaises
  /-- The body raises an `InvalidStatusException`, which is logged. -/
  | bodyInvalid

namespace Assignments

/-- Before the first invocation. -/
def initial : Assignments := ⟨Dict.empty, [], 16⟩

/-- The environments of the table that are there for leases on demand. -/
def applicable (s : Assignments) : List String :=
  s.environments.filter fun env =>
    (s.objects.get? env).any fun object => decide (object.initializationType = .onDemand)

/-- A section of an environment that may raise. -/
def attempt (s : Assignments) (env : String)
    (section' : ExecutionEnvironment → Except InvalidStatusException ExecutionEnvironment) :
    Option (Except InvalidStatusException Assignments) :=
  (s.objects.get? env).map fun object =>
    (section' object).map fun object' => { s with objects := s.objects.set env object' }

/-- `pop` of the table. -/
def pop (s : Assignments) (env : String) : Assignments :=
  { s with environments := s.environments.erase env }

end Assignments

namespace Thread

/-- The sections of an environment, with what the thread does if it raises and if it does not. -/
def after (s : Assignments) (result : Option (Except InvalidStatusException Assignments))
    (ok : Thread) (error : InvalidStatusException → Thread) : Option (Assignments × Thread) :=
  result.map fun
    | .ok s' => (s', ok)
    | .error e => (s, error e)

/-- A new environment. It is managed if the version has a capacity provider. -/
def create (capacityProvider : Bool) (id : String) : ExecutionEnvironment :=
  .new id (if capacityProvider then .lambdaManagedInstances else .onDemand)

/-- Its next section. -/
def next (capacityProvider : Bool) (s : Assignments) :
    Thread → Choice → Option (Assignments × Thread)
  | .snapshot, .proceed => some (s, .scan s.applicable)
  | .scan [], .proceed => some (s, .acquire)
  | .scan (env :: rest), .proceed =>
    after s (s.attempt env ExecutionEnvironment.reserve) (.yielded env) fun _ => .scan rest
  | .acquire, .proceed =>
    if 0 < s.onDemandStarts then some ({ s with onDemandStarts := s.onDemandStarts - 1 }, .start)
    else none
  | .start, .create id =>
    let object := create capacityProvider id
    some ({ s with objects := s.objects.set id (object.orSame object.startEntry) }, .starting id)
  | .starting env, .proceed =>
    (s.objects.get? env).map fun object =>
      ({ s with objects := s.objects.set env object.startCompleted }, .releaseSemaphore env)
  | .releaseSemaphore env, .proceed =>
    some ({ s with onDemandStarts := s.onDemandStarts + 1 }, .publish env)
  | .publish env, .proceed =>
    some ({ s with environments := s.environments ++ [env] }, .reserveNew env)
  | .reserveNew env, .proceed =>
    after s (s.attempt env ExecutionEnvironment.reserve) (.yielded env) .raised
  | .yielded env, .proceed =>
    after s (s.attempt env ExecutionEnvironment.release) .returned fun _ => .returned
  | .yielded env, .bodyRaises =>
    (s.objects.get? env).map fun object =>
      (s, if object.initializationType = .onDemand then .stopping env else .restoring env)
  | .restoring env, .proceed =>
    after s (s.attempt env ExecutionEnvironment.release) .bodyRaised fun _ => .stopping env
  | .yielded _, .bodyInvalid => some (s, .returned)
  | .stopping env, .proceed =>
    after s (s.attempt env ExecutionEnvironment.stop) (.removing env) fun _ => .bodyRaised
  | .removing env, .proceed => some (s.pop env, .bodyRaised)
  | .keepalive env, .proceed =>
    (s.objects.get? env).map fun object =>
      ({ s with objects := s.objects.set env object.keepalivePassed },
        if object.status = .ready then .keepaliveStop env else .timerDone)
  | .keepaliveStop env, .proceed =>
    after s (s.attempt env ExecutionEnvironment.stop) (.onTimeout env) fun _ => .timerDone
  | .onTimeout env, .proceed => some (s.pop env, .timerDone)
  | _, _ => none

end Thread

abbrev AssignmentPool := Pool Assignments Thread

namespace AssignmentPool

/-- Before the first invocation. -/
def initial : AssignmentPool := ⟨Assignments.initial, []⟩

/-- A thread is started, or one of them runs its next section. -/
abbrev step (capacityProvider : Bool) :
    AssignmentPool → Pool.Label Thread Choice → Option AssignmentPool :=
  Pool.step (Thread.next capacityProvider)

/-- What can be started and chosen: invocations, keepalive timers of environments
    that were released, and identifiers that no environment has. -/
def Admissible (p : AssignmentPool) : Pool.Label Thread Choice → Prop
  | .spawn .snapshot => True
  | .spawn (.keepalive env) =>
    (p.shared.objects.get? env).any ExecutionEnvironment.keepaliveStarted = true
  | .spawn _ => False
  | .act _ (.create id) => p.shared.objects.get? id = none
  | .act _ _ => True

end AssignmentPool

end LocalEmu.Lambda
