import LocalEmu.Core.CloudFormation.Preproc

/-!
# The Executor

`ChangeSetModelExecutor` executes a change set while it visits it: once the values of a
resource are known, the resource is created, updated or left as it is. References make
the visits nest, so what a resource refers to is deployed before it. Removals are put
off. They are executed last, in reverse, and this is so also when the visit failed.

The resource providers are a parameter, and may answer the same action differently each
time they are asked.

## Main definitions

* `visitNodeResource`, `callbacks`: The visits of resources.
* `process`, `execute`: The execution of a change set.
-/

namespace LocalEmu.CloudFormation

open Iam (Json)

/-- How a resource action ends: the deploy loop returned an event, with the physical id
    it found for a resource that is there, or raised; or there is no provider. -/
inductive Deployment
  | returned (event : ProgressEvent) (physicalResourceId : Option String)
  | raised (reason : String)
  | missing

/-- The resource providers, which may remember what they did before, and the types that
    may be without one. -/
structure Providers where
  deploy : List Performed → Call → Deployment
  ignoresUnsupported : String → Bool

/-- What a failed execution of a change set reports. -/
abbrev FailureMessage := Option String

variable (env : Environment) (providers : Providers)

/-! ### Stack -/

variable (node : NodeResource) (cb : Callbacks) (name : String) (delta : Delta PreprocResource)
  (condition : Delta Bool) (properties : Delta Json) (call : Call) (stack : Stack)

/-- `stack.set_stack_status(status)`. -/
def Stack.setStackStatus (status : StackStatus) : Stack :=
  { stack with status := status }

/-- `stack.set_resource_status(…)`. A resource that is deleted is no longer listed. -/
def Stack.setResourceStatus (name : String) (status : ResourceStatus) : Except Error Stack :=
  let events := (name, status) :: stack.events
  if status = .complete .remove then
    if (stack.resourceStates.get? name).isSome then
      return { stack with resourceStates := stack.resourceStates.erase name, events := events }
    else throw (.other ("'" ++ name ++ "'"))
  else
    return { stack with
      resourceStates := stack.resourceStates.set name status
      events := events }

def onStack (f : Stack → Stack) : Visit Unit := modify fun s => { s with stack := f s.stack }

/-- The status of a resource for an event: `ResourceStatus(f"…_PENDING")` is none. -/
def eventStatus (action : ChangeAction) : OperationStatus → Except Error ResourceStatus
  | .success => return .complete action
  | .failed => return .failed action
  | .inProgress => return .inProgress action
  | .pending => throw (.other "is not a valid ResourceStatus")

/-- The status of a resource, and of its stack when it failed. -/
def processEvent (action : ChangeAction) (name : String) (status : OperationStatus)
    (customStatus : Option ResourceStatus) : Visit Unit := do
  let resourceStatus ← check (eventStatus action status)
  let s ← get
  let stack ← check
    (s.stack.setResourceStatus name (customStatus.getD resourceStatus))
  onStack fun _ =>
    if status = .failed then stack.setStackStatus (.ofFailed action) else stack

/-! ### Records -/

def resourcePhysicalResourceIdFrom
    (resolvedResources : Dict String ResolvedResource) : Except Error (Option String) :=
  let resource := resolvedResources.getD name .empty
  if resource.resourceStatus = some (.complete .add) ∨
      resource.resourceStatus = some (.complete .modify) then
    match resource.physicalResourceId with
    | some id => return some id
    | none =>
      throw (.runtimeError ("No PhysicalResourceId found for resource '" ++ name ++ "'"))
  else return none

def mergeBeforeProperties (name : String) (resource : PreprocResource) : Maybe Json :=
  match (stack.resolvedResources.getD name .empty).properties with
  | some properties => if properties.truthy then some properties else resource.properties
  | none => resource.properties

/-- `isinstance(self, PreprocResource)` and `__eq__`: neither the ids that a resource
    depends on nor its policies count. -/
def PreprocResource.equal (r1 r2 : PreprocResource) : Bool :=
  r1.logicalId == r2.logicalId &&
  (r1.condition.getD true == r2.condition.getD true) &&
  (r1.resourceType == r2.resourceType) &&
  match r1.properties, r2.properties with
  | some p1, some p2 => env.builtins.equal p1 p2
  | none, none => true
  | _, _ => false

/-- `before != after` of the delta of a resource. -/
def differs : Bool :=
  match delta.before, delta.after with
  | some before, some after => !before.equal env after
  | none, none => false
  | _, _ => true

/-! ### Actions -/

/-- The event of a resource action, and the physical id for a resource that is there. -/
def eventOf : Deployment → ProgressEvent × Option String
  | .returned event physicalResourceId => (event, physicalResourceId)
  | .raised reason =>
    (⟨.failed, .obj [], some ("Resource provider operation failed: " ++ reason)⟩, none)
  | .missing =>
    let resourceType := call.resourceType.getD ""
    if providers.ignoresUnsupported resourceType then
      (⟨.success, .obj [], some ("Resource type " ++ resourceType ++
        " is not supported but was deployed as a fallback")⟩, some "unknown")
    else (⟨.failed, .obj [], some ("Resource type " ++ resourceType ++ " not supported")⟩, none)

/-- The record that `_execute_resource_action` makes. The record of a resource that was
    removed has neither a physical id nor a status. -/
def resolvedResourceOf (event : ProgressEvent) (physicalResourceId : Option String) :
    Except Error ResolvedResource :=
  match event.status with
  | .success =>
    if call.action = .remove then
      return ⟨call.resourceType, some event.resourceModel, none, none, none⟩
    else
      return ⟨call.resourceType, some event.resourceModel, physicalResourceId,
        some (.complete call.action), none⟩
  | .failed =>
    return ⟨call.resourceType, some event.resourceModel, none, some (.failed call.action),
      event.message⟩
  | _ => throw (.other "Event status not handled")

/-- `_execute_resource_action`. The clean-up after a replacement leaves the record of the
    new resource alone. -/
def executeResourceAction (partOfReplacement : Bool) : Visit ProgressEvent := do
  let s ← get
  let (event, physicalResourceId) := eventOf providers call (providers.deploy s.performed call)
  modify fun s => { s with performed := s.performed ++ [⟨call, event⟩] }
  if partOfReplacement && call.action = .remove then
    return event
  else
    let resource ← check (resolvedResourceOf call event physicalResourceId)
    modify fun s => { s with resources := s.resources.set call.logicalResourceId resource }
    return event

/-- A resource action with the event that it ends with. -/
def executeAndProcess (eventAction : ChangeAction) (partOfReplacement : Bool) : Visit Unit := do
  let event ← executeResourceAction providers call partOfReplacement
  processEvent eventAction call.logicalResourceId event.status none

def deferAction (deferred : Deferred) : Visit Unit :=
  modify fun s => { s with deferredActions := s.deferredActions ++ [deferred] }

/-- What the change of a resource makes happen. -/
def executeResourceChange : Visit Unit := do
  let s ← get
  match delta.before, delta.after with
  | some before, some after =>
    let beforeProperties := mergeBeforeProperties s.stack name before
    if before.resourceType = after.resourceType then
      processEvent .modify name .inProgress none
      if after.requiresReplacement then
        executeAndProcess providers
          ⟨.add, name, before.resourceType, none, after.properties⟩ .modify false
        deferAction
          (.cleanup name before.resourceType beforeProperties after.updateReplacePolicy)
      else
        executeAndProcess providers
          ⟨.modify, name, before.resourceType, beforeProperties, after.properties⟩ .modify false
    else
      deferAction (.typeMigration name before.resourceType beforeProperties)
      executeAndProcess providers
        ⟨.add, name, after.resourceType, none, after.properties⟩ .modify false
  | some before, none =>
    deferAction (.removal name before.resourceType (mergeBeforeProperties s.stack name before)
      before.deletionPolicy)
  | none, some after =>
    processEvent .add name .inProgress none
    executeAndProcess providers ⟨.add, name, after.resourceType, none, after.properties⟩ .add false
  | none, none => return

/-- The removal of a resource, unless it is retained. -/
def performDeletion (resourceType : Maybe String) (beforeProperties : Maybe Json)
    (policy : Maybe String) (partOfReplacement : Bool) : Visit Unit :=
  if policy ≠ some "Retain" then do
    processEvent .remove name .inProgress none
    executeAndProcess providers ⟨.remove, name, resourceType, beforeProperties, none⟩ .remove
      partOfReplacement
  else processEvent .remove name .success (some .deleteSkipped)

/-- The call of a deferred action. The removal of the old type has the events of a modification. -/
def Deferred.action : Deferred → Visit Unit
  | cleanup name resourceType beforeProperties updateReplacePolicy =>
    performDeletion providers name resourceType beforeProperties updateReplacePolicy true
  | typeMigration name resourceType beforeProperties =>
    executeAndProcess providers ⟨.remove, name, resourceType, beforeProperties, none⟩ .modify false
  | removal name resourceType beforeProperties deletionPolicy =>
    performDeletion providers name resourceType beforeProperties deletionPolicy false

/-! ### Visits -/

/-- `VALID_LOGICAL_RESOURCE_ID_RE.match(name)`. -/
def validLogicalResourceId : Bool :=
  !name.isEmpty && name.toList.all (·.isAlphanum)

/-- The visits of the resources that one depends on. -/
def visitAll (cb : Callbacks) : List String → Visit Unit
  | [] => return
  | name :: names => do
    let _ ← getNodeResourceFor env cb name
    visitAll cb names

/-- `visit_node_depends_on`, if the resource has such a node. -/
def visitDependsOn : Maybe (Delta (List String)) → Visit Unit
  | some dependsOn =>
    visitAll env cb (env.setOrder.toList (dependsOn.before.getD [] ++ dependsOn.after.getD []))
  | none => return

/-- The condition of a resource or of an output on both sides. -/
def conditionOf (reference : Maybe (Delta String)) : Except Error (Delta Bool) :=
  match reference with
  | some reference => resolveResourceConditionReference env reference
  | none => return ⟨none, none⟩

/-- If a resource is there on one side. -/
def shouldProcess (absent changeType : ChangeType) (condition : Maybe Bool) : Bool :=
  decide (changeType ≠ absent) && condition.getD true

/-- The resource as the template has it before. -/
def beforeResource (physicalResourceId : Option String) : PreprocResource where
  logicalId := node.name
  physicalResourceId := physicalResourceId
  condition := condition.before
  resourceType := node.type_.before
  properties := properties.before
  dependsOn := node.dependsOn.bind (·.before)
  requiresReplacement := false
  status := none
  deletionPolicy := node.deletionPolicy.before
  updateReplacePolicy := node.updateReplacePolicy.before

/-- The resource as the template has it after. -/
def afterResource (physicalResourceId : Option String) : PreprocResource where
  logicalId := node.name
  physicalResourceId := physicalResourceId
  condition := condition.after
  resourceType := node.type_.after
  properties := properties.after
  dependsOn := node.dependsOn.bind (·.after)
  requiresReplacement := node.requiresReplacement
  status := none
  deletionPolicy := node.deletionPolicy.after
  updateReplacePolicy := node.updateReplacePolicy.after

/-- The delta of a resource before. The physical id may be missing where the record says
    that it is there, which raises. -/
def deltaBefore (s : State) : Except Error (Maybe PreprocResource) :=
  if shouldProcess .created node.changeType condition.before then do
    let physicalResourceId ← resourcePhysicalResourceIdFrom node.name s.stack.resolvedResources
    return some (beforeResource node condition properties physicalResourceId)
  else return none

/-- The delta of a resource after. -/
def deltaAfter (s : State) : Maybe PreprocResource :=
  if shouldProcess .removed node.changeType condition.after then
    some (afterResource node condition properties
      ((resourcePhysicalResourceIdFrom node.name s.resources).toOption).join)
  else none

/-- The properties of a resource, if it is there on one of the sides. -/
def resourceProperties (node : NodeResource) (condition : Delta Bool) : Visit (Delta Json) :=
  if shouldProcess .created node.changeType condition.before ||
      shouldProcess .removed node.changeType condition.after then
    visitProperties env cb node
  else return ⟨none, none⟩

/-- `super().visit_node_resource(node_resource)`. -/
def preprocNodeResource (node : NodeResource) : Visit (Delta PreprocResource) :=
  if validLogicalResourceId node.name then do
    let condition ← check (conditionOf env node.conditionReference)
    visitDependsOn env cb node.dependsOn
    let properties ← resourceProperties env cb node condition
    let s ← get
    let before ← check (deltaBefore node condition properties s)
    return ⟨before, deltaAfter node condition properties s⟩
  else
    raise (.other ("Template format error: Resource name " ++ node.name ++
      " is non alphanumeric."))

/-- What a resource gets from its record once it is deployed. A record without a status
    is a `KeyError`, and a resource that failed ends the deployment. -/
def annotate (after : PreprocResource) : Visit PreprocResource := do
  let s ← get
  let resource := s.resources.getD after.logicalId .empty
  match resource.resourceStatus with
  | none => raise (.other "'ResourceStatus'")
  | some status =>
    if status = .failed .add ∨ status = .failed .modify then
      throw (.triggerRollback after.logicalId resource.resourceStatusReason)
    else
      let physicalResourceId ← check (resourcePhysicalResourceIdFrom after.logicalId s.resources)
      return { after with physicalResourceId := physicalResourceId, status := some status }

/-- A resource without changes keeps the record it has. -/
def keepResource (before : PreprocResource) : Visit Unit :=
  modify fun s => { s with
    resources := s.resources.set before.logicalId
      (s.stack.resolvedResources.getD before.logicalId .empty) }

/-- What the delta of a resource makes happen. -/
def applyDelta : Visit Unit :=
  if differs env delta then executeResourceChange providers name delta
  else match delta.before with
    | some before => keepResource before
    | none => return

/-- `visit_node_resource` after the preprocessing. -/
def deployResource : Visit (Delta PreprocResource) := do
  applyDelta env providers name delta
  match delta.after with
  | some after =>
    let annotated ← annotate after
    return ⟨delta.before, some annotated⟩
  | none => return delta

/-- `except Exception`: the resource failed, and the exception is raised again. -/
def failResource (e : Exn) : Visit (Delta PreprocResource) := do
  processEvent node.changeType.toChangeAction node.name .failed none
  throw e

def visitNodeResource (node : NodeResource) : Visit (Delta PreprocResource) := do
  let delta ← Action.attempt (preprocNodeResource env cb node) (failResource node)
  deployResource env providers node.name delta

/-- `visit` of a resource: it was visited before, or it is visited now. -/
def visitOnce (visit : Visit (Delta PreprocResource)) : Visit (Delta PreprocResource) := do
  let s ← get
  match s.visited.get? node.name with
  | some delta => return delta
  | none =>
    let delta ← visit
    modify fun s => { s with visited := s.visited.set node.name delta }
    return delta

def recursionError : Error := .runtimeError "maximum recursion depth exceeded"

/-- The visits of resources and of properties, nested up to a depth. -/
def callbacks : Nat → Callbacks
  | 0 => ⟨fun _ => raise recursionError, fun _ _ => raise recursionError⟩
  | depth + 1 =>
    ⟨fun node => visitOnce node (visitNodeResource env providers (callbacks depth) node),
      fun _ entity => visitValue env (callbacks depth) entity⟩

/-- `visit_node_resources`: resources whose condition is false now are left out. -/
def visitNodeResources (cb : Callbacks) : List NodeResource → Visit Unit
  | [] => return
  | node :: nodes => do
    let condition ← check (conditionOf env node.conditionReference)
    if condition.after = some false then
      visitNodeResources cb nodes
    else
      let _ ← cb.visitResource node
      visitNodeResources cb nodes

/-- The change type of an output, which a condition that changes its value decides. -/
def outputChangeType (node : NodeOutput) (condition : Delta Bool) : ChangeType :=
  if node.conditionReference.isSome then
    match condition.before.getD false, condition.after.getD false with
    | false, true => .created
    | true, false => .removed
    | _, _ => node.changeType
  else node.changeType

/-- `after.export["Name"]`, if there is an export. -/
def exportName (export_ : Maybe Json) : Except Error (Maybe Json) :=
  match export_ with
  | none => return none
  | some (.obj members) =>
    if members.isEmpty then return none
    else match members.lookup "Name" with
      | some name => return some name
      | none => throw (.other "'Name'")
  | some value => if value.truthy then throw (env.builtins.malformed value) else return none

def visitExport : Maybe Entity → Visit (Delta Json)
  | some entity => visitValue env cb entity
  | none => return ⟨none, none⟩

def visitNodeOutput (node : NodeOutput) : Visit Unit := do
  let value ← visitValue env cb node.value
  let condition ← check (conditionOf env node.conditionReference)
  let export_ ← visitExport env cb node.export_
  if outputChangeType node condition = .removed ∨ condition.after = some false then return
  else
    let name ← check (exportName env export_.after)
    modify fun s => { s with outputs := s.outputs ++ [⟨node.name, value.after, name⟩] }

def visitNodeOutputs (cb : Callbacks) : List NodeOutput → Visit Unit
  | [] => return
  | node :: nodes => do
    let condition ← check (conditionOf env node.conditionReference)
    if condition.after = some false then
      visitNodeOutputs cb nodes
    else
      visitNodeOutput env cb node
      visitNodeOutputs cb nodes

/-! ### Execution -/

/-- `process`, with a limit on how deep the visits may nest. -/
def process (depth : Nat) : Visit Unit := do
  let _ ← check env.conditions
  visitNodeResources env (callbacks env providers depth) env.resources
  visitNodeOutputs env (callbacks env providers depth) env.outputs

/-- `str(e)`, or the reason of a rollback. -/
def Exn.failureMessage : Exn → FailureMessage
  | triggerRollback _ reason => reason
  | error (.runtimeError text) => some text
  | error (.other text) => some text

/-- `if failure_message`. -/
def truthyMessage (message : FailureMessage) : Bool := message.getD "" != ""

/-- The call of the deferred actions, one after the other. -/
def performDeferred : List Deferred → Visit Unit
  | [] => return
  | deferred :: rest => do
    deferred.action providers
    performDeferred rest

/-- `process()` with the exceptions that it ends with caught. -/
def attemptProcess (depth : Nat) : Visit FailureMessage :=
  Action.attempt (do process env providers depth; return none) fun e => return e.failureMessage

/-- The deferred actions. They have a status of their own unless the stack is being deleted. -/
def runDeferredActions (failureMessage : FailureMessage) (isDeletion : Bool) : Visit Unit := do
  let s ← get
  match s.deferredActions with
  | [] => return
  | deferredActions =>
    onStack fun stack =>
      if isDeletion then stack
      else stack.setStackStatus (if truthyMessage failureMessage then .rollbackInProgress
        else .updateCompleteCleanupInProgress)
    performDeferred providers deferredActions.reverse

/-- What is left to do after `process()`: the deferred actions, and the final status. -/
def conclude (failureMessage : FailureMessage) : Visit Unit := do
  let s ← get
  let isDeletion := decide (s.stack.status = .deleteInProgress)
  runDeferredActions providers failureMessage isDeletion
  onStack fun stack =>
    if truthyMessage failureMessage && !isDeletion then stack.setStackStatus .rollbackComplete
    else stack

def execute (depth : Nat) : Visit FailureMessage := do
  let failureMessage ← attemptProcess env providers depth
  conclude providers failureMessage
  return failureMessage

end LocalEmu.CloudFormation
