import LocalEmu.Core.CloudFormation.Executor

/-!
# Stack Operations

The workers that `create_stack`, `update_stack`, `execute_change_set` and `delete_stack`
start. Each of them executes a change set and then sets the status of the stack, each in
a way of its own: `create_stack` looks at the records of the resources,
`execute_change_set` at the failure message, and the two others only at whether the
execution raised. An exception in `execute_change_set` ends the worker.
-/

namespace LocalEmu.CloudFormation

open Iam (Json)

variable (env : Environment) (providers : Providers)

variable (stack : Stack) (beforeCache : Dict Scope (Maybe Json))

/-- `_setup_runtime_cache`, and an executor that has not started. -/
def State.initial : State where
  stack := stack
  beforeCache := beforeCache
  afterCache := .empty
  visited := .empty
  resources := .empty
  outputs := []
  deferredActions := []
  performed := []

/-- What is there when a worker has finished: the stack, the actions that were performed,
    and what the executor reported, or raised. -/
structure Finished where
  stack : Stack
  performed : List Performed
  reported : Except Exn FailureMessage

inductive ChangeSetType
  | create
  | update

/-- The status with which a stack is complete. -/
def ChangeSetType.complete : ChangeSetType → StackStatus
  | create => .createComplete
  | update => .updateComplete

/-- The status that a stack has while its change set is executed. -/
def ChangeSetType.inProgress : ChangeSetType → StackStatus
  | create => .createInProgress
  | update => .updateInProgress

/-- The state that `create_stack` starts from. -/
def createStart : State :=
  .initial (stack.setStackStatus .createInProgress) .empty

/-- The state that `update_stack` starts from. -/
def updateStart : State :=
  .initial (stack.setStackStatus .updateInProgress) beforeCache

variable (changeSetType : ChangeSetType)

/-- The state that `execute_change_set` starts from. -/
def changeSetStart : State :=
  .initial (stack.setStackStatus changeSetType.inProgress) beforeCache

/-- The state that `delete_stack` starts from. -/
def deleteStart : State :=
  .initial (stack.setStackStatus .deleteInProgress) .empty

variable (depth : Nat)

/-- The worker of `create_stack`. A record without a status raises, and so the stack failed. -/
def createStack (stack : Stack) : Finished :=
  match Action.exec (execute env providers depth) (createStart stack) with
  | (.ok message, s) =>
    let complete := s.resources.values.all
      fun resource => resource.resourceStatus == some (.complete .add)
    { stack := { s.stack with
        resolvedResources := s.resources
        status := if complete then .createComplete else .createFailed }
      performed := s.performed
      reported := .ok message }
  | (.error e, s) => ⟨s.stack.setStackStatus .createFailed, s.performed, .error e⟩

/-- The worker of `update_stack`. -/
def updateStack (stack : Stack) (beforeCache : Dict Scope (Maybe Json)) : Finished :=
  match Action.exec (execute env providers depth) (updateStart stack beforeCache) with
  | (.ok message, s) =>
    { stack := { s.stack with resolvedResources := s.resources, status := .updateComplete }
      performed := s.performed
      reported := .ok message }
  | (.error e, s) => ⟨s.stack.setStackStatus .updateFailed, s.performed, .error e⟩

/-- The worker of `execute_change_set`. The status of a failed execution is left to the executor. -/
def executeChangeSet (stack : Stack) (beforeCache : Dict Scope (Maybe Json)) : Finished :=
  match Action.exec (execute env providers depth) (changeSetStart stack beforeCache changeSetType)
    with
  | (.ok message, s) =>
    { stack := { s.stack with
        resolvedResources := s.resources
        status := if truthyMessage message then s.stack.status else changeSetType.complete }
      performed := s.performed
      reported := .ok message }
  | (.error e, s) => ⟨s.stack, s.performed, .error e⟩

/-- The worker of `delete_stack`. The records of the resources stay as they are. -/
def deleteStack (stack : Stack) : Finished :=
  match Action.exec (execute env providers depth) (deleteStart stack) with
  | (.ok message, s) => ⟨s.stack.setStackStatus .deleteComplete, s.performed, .ok message⟩
  | (.error e, s) => ⟨s.stack.setStackStatus .deleteFailed, s.performed, .error e⟩

end LocalEmu.CloudFormation
