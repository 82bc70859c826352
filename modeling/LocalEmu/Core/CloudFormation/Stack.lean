import LocalEmu.Base.Action
import LocalEmu.Base.Dict
import LocalEmu.Core.CloudFormation.ChangeSetModel

/-!
# Stacks

A stack, the records of its resources, and what an execution of a change set holds on
the way: the caches of the visitor, the records it makes, the actions it deferred. The
actions that were asked of the resource providers are kept with what came of them, in
the order in which they were made.

## Main definitions

* `StackStatus`, `ResourceStatus`, `OperationStatus`, `ChangeAction`: Enumerations.
* `NodeResource`, `NodeOutput`: Resources and outputs of the two templates.
-/

namespace LocalEmu.CloudFormation

open Iam (Json)

/-! ### Enumerations -/

/-- `StackStatus`, as far as the engine sets it. -/
inductive StackStatus
  | reviewInProgress
  | createInProgress
  | createComplete
  | createFailed
  | updateInProgress
  | updateComplete
  | updateFailed
  | updateCompleteCleanupInProgress
  | rollbackInProgress
  | rollbackComplete
  | deleteInProgress
  | deleteComplete
  | deleteFailed
  deriving DecidableEq

inductive ChangeAction
  | add
  | modify
  | remove
  deriving DecidableEq

def ChangeType.toChangeAction : ChangeType → ChangeAction
  | .modified => .modify
  | .removed => .remove
  | _ => .add

inductive OperationStatus
  | pending
  | inProgress
  | success
  | failed
  deriving DecidableEq

/-- `ResourceStatus`: what `EventOperationFromAction` makes of an action, with how it
    goes, or `DELETE_SKIPPED`. -/
inductive ResourceStatus
  | inProgress (action : ChangeAction)
  | complete (action : ChangeAction)
  | failed (action : ChangeAction)
  | deleteSkipped
  deriving DecidableEq

/-- `StackStatus(status)` of the status of a resource that failed. -/
def StackStatus.ofFailed : ChangeAction → StackStatus
  | .add => .createFailed
  | .modify => .updateFailed
  | .remove => .deleteFailed

/-! ### Stacks -/

/-- `ResolvedResource`. Every entry of the dictionary may be missing. -/
structure ResolvedResource where
  type : Option String
  properties : Option Json
  physicalResourceId : Option String
  resourceStatus : Option ResourceStatus
  resourceStatusReason : Option String

/-- `{}`. -/
def ResolvedResource.empty : ResolvedResource := ⟨none, none, none, none, none⟩

/-- `Stack`, as far as the engine uses it. -/
structure Stack where
  status : StackStatus
  resolvedResources : Dict String ResolvedResource
  resourceStates : Dict String ResourceStatus
  -- The events of resources, the last one first.
  events : List (String × ResourceStatus)

/-! ### Nodes -/

/-- `NodeResource`. Its type, its condition, the ids it depends on and its policies are
    terminal values, given here by what a visit makes of them. -/
structure NodeResource where
  scope : Scope
  changeType : ChangeType
  name : String
  type_ : Delta String
  properties : List (String × Entity)
  propertiesScope : Scope
  propertiesChangeType : ChangeType
  conditionReference : Maybe (Delta String)
  dependsOn : Maybe (Delta (List String))
  requiresReplacement : Bool
  deletionPolicy : Delta String
  updateReplacePolicy : Delta String

structure NodeOutput where
  changeType : ChangeType
  name : String
  value : Entity
  conditionReference : Maybe (Delta String)
  export_ : Maybe Entity

/-- `PreprocResource`. Its properties are `Nothing` when a visit finds that they were
    created or removed as a whole. -/
structure PreprocResource where
  logicalId : String
  physicalResourceId : Option String
  condition : Maybe Bool
  resourceType : Maybe String
  properties : Maybe Json
  dependsOn : Maybe (List String)
  requiresReplacement : Bool
  status : Option ResourceStatus
  deletionPolicy : Maybe String
  updateReplacePolicy : Maybe String

/-! ### Executions -/

/-- An exception with its text: a `RuntimeError`, which `Fn::Sub` catches, or another one. -/
inductive Error
  | runtimeError (text : String)
  | other (text : String)
  deriving DecidableEq

/-- What a visit can raise. `TriggerRollback` is for a resource that failed. -/
inductive Exn
  | triggerRollback (logicalResourceId : String) (reason : Option String)
  | error (e : Error)
  deriving DecidableEq

/-- A resource action, as it is asked of the resource provider. -/
structure Call where
  action : ChangeAction
  logicalResourceId : String
  resourceType : Maybe String
  beforeProperties : Maybe Json
  afterProperties : Maybe Json

structure ProgressEvent where
  status : OperationStatus
  resourceModel : Json
  message : Option String

/-- A resource action and what came of it. -/
structure Performed where
  call : Call
  event : ProgressEvent

/-- `Deferred`: the three actions that are put off, with what their closures hold. -/
inductive Deferred
  | cleanup (name : String) (resourceType : Maybe String) (beforeProperties : Maybe Json)
      (updateReplacePolicy : Maybe String)
  | typeMigration (name : String) (resourceType : Maybe String) (beforeProperties : Maybe Json)
  | removal (name : String) (resourceType : Maybe String) (beforeProperties : Maybe Json)
      (deletionPolicy : Maybe String)

structure Output where
  outputKey : String
  outputValue : Maybe Json
  exportName : Maybe Json

/-- The state of a `ChangeSetModelExecutor`, with its stack and with the actions
    performed so far. -/
structure State where
  stack : Stack
  beforeCache : Dict Scope (Maybe Json)
  afterCache : Dict Scope (Maybe Json)
  -- The resources whose scope is in both caches.
  visited : Dict String (Delta PreprocResource)
  resources : Dict String ResolvedResource
  outputs : List Output
  deferredActions : List Deferred
  performed : List Performed

/-- A part of the visit. -/
abbrev Visit (α : Type) := Action State Exn α

/-- A computation without effects as a part of the visit. -/
def check {α : Type} (r : Except Error α) : Visit α := Action.ofExcept (r.mapError .error)

def raise {α : Type} (e : Error) : Visit α := throw (.error e)

end LocalEmu.CloudFormation
