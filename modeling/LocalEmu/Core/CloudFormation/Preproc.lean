import LocalEmu.Core.CloudFormation.Stack

/-!
# Preprocessing

`ChangeSetModelPreproc` visits the entities of a change set model and finds the value
that each has before and after. What a visit found is cached by the scope of the
entity, once for each side, and an entity is visited again unless both caches have its
scope. An intrinsic function looks for its value in each of the caches by itself: the
cache for before may come from the execution of the previous change set, and a
reference whose value it has is not resolved.

To resolve a reference to a resource visits this resource. The visits of resources are
the business of the executor, so they stand here as a callback; the visit of a property
of another resource, with which `Fn::GetAtt` looks for a value in the end, is a callback
as well.

What the functions other than `Ref`, `Fn::GetAtt`, `Fn::Sub`, `Fn::If` and `Condition`
make of their arguments is a parameter, and so are the values of parameters and the
truth values of the conditions, which are visited before all resources.
-/

namespace LocalEmu.CloudFormation

open Iam (Json)

/-- Functions of Python and of the values of templates. -/
structure Builtins where
  -- `value1 == value2`.
  equal : Json → Json → Bool
  -- `str(value)`.
  str : Json → String
  -- What is raised for a value of the wrong type.
  malformed : Json → Error
  -- `_perform_static_replacements` and `_perform_dynamic_replacements`.
  performReplacements : String → Except Error String
  -- What a function makes of its arguments.
  apply : IntrinsicFunction → Json → Except Error (Maybe Json)
  -- `_resolve_pseudo_parameter`.
  resolvePseudoParameter : String → Except Error Json
  -- The attribute of a deployed resource, `None` if it has none.
  attributeOf : ResolvedResource → String → Except Error Json
  -- The string of `Fn::Sub` with the values of its variables.
  substitute : String → List (String × Json) → Except Error Json

/-- The order in which Python goes through a set of ids. -/
structure SetOrder where
  toList : List String → List String
  mem_toList : ∀ ids id, id ∈ toList ids ↔ id ∈ ids

/-- The templates, and what does not change in an execution. -/
structure Environment where
  builtins : Builtins
  setOrder : SetOrder
  resources : List NodeResource
  outputs : List NodeOutput
  parameters : String → Maybe (Except Error (Delta Json))
  -- The values of the conditions by their names, or what their visit raises.
  conditions : Except Error (List (String × Delta Bool))
  -- If the replacements are made on both sides, as the executor does not.
  replacesBefore : Bool

/-- The visits of resources and of their properties. -/
structure Callbacks where
  visitResource : NodeResource → Visit (Delta PreprocResource)
  visitProperty : NodeResource → Entity → Visit (Delta Json)

variable (env : Environment)

def pseudoParameters : List String :=
  ["AWS::Partition", "AWS::AccountId", "AWS::Region", "AWS::StackName", "AWS::StackId",
    "AWS::URLSuffix", "AWS::NoValue", "AWS::NotificationARNs"]

/-! ### Caches -/

/-- One side of `_maybe_perform_replacements`. -/
def performReplacements (value : Maybe Json) : Except Error (Maybe Json) :=
  match value with
  | some (.str s) => do
    let replaced ← env.builtins.performReplacements s
    return some (.str replaced)
  | value => return value

def maybePerformReplacements (delta : Delta Json) : Except Error (Delta Json) := do
  let before ←
    if env.replacesBefore then performReplacements env delta.before else pure delta.before
  let after ← performReplacements env delta.after
  return ⟨before, after⟩

def State.store (s : State) (scope : Scope) (delta : Delta Json) : State :=
  { s with
    beforeCache := s.beforeCache.set scope delta.before
    afterCache := s.afterCache.set scope delta.after }

variable (cb : Callbacks) (name : String) (scope : Scope)

/-- `visit` of an entity: both caches have its scope, or it is visited now. -/
def cached (visit : Visit (Delta Json)) : Visit (Delta Json) := do
  let s ← get
  match s.beforeCache.get? scope, s.afterCache.get? scope with
  | some before, some after => return ⟨before, after⟩
  | _, _ =>
    let delta ← visit
    let delta ← check (maybePerformReplacements env delta)
    modify (·.store scope delta)
    return delta

/-- One side of `_cached_apply`. That a cache has the scope is not enough: `Nothing` is
    resolved again. -/
def applySide (cache : State → Dict Scope (Maybe Json)) (scope : Scope) (argument : Maybe Json)
    (resolver : Json → Visit (Maybe Json)) : Visit (Maybe Json) := do
  let s ← get
  match ((cache s).get? scope).join, argument with
  | some value, _ => return some value
  | none, none => return none
  | none, some argument => resolver argument

variable (deltas : List (String × Delta Json)) (selectBefore : Bool) (function : IntrinsicFunction)
  (arguments : Delta Json)

/-- `_cached_apply`. The resolver is told which side it is for. -/
def cachedApply (resolver : Bool → Json → Visit (Maybe Json)) : Visit (Delta Json) := do
  let before ← applySide State.beforeCache scope arguments.before (resolver true)
  let after ← applySide State.afterCache scope arguments.after (resolver false)
  return ⟨before, after⟩

def Delta.select {α : Type} (delta : Delta α) (selectBefore : Bool) : Maybe α :=
  if selectBefore then delta.before else delta.after

/-! ### References -/

/-- The text of the error for a resource that is not there. -/
def unresolvedDependencies : Error :=
  .other ("Template format error: Unresolved resource dependencies [" ++ name ++
    "] in the Resources block of the template")

/-- `_get_node_resource_for`: the resource with this name, which is visited first. -/
def getNodeResourceFor : Visit (NodeResource × Delta PreprocResource) := do
  match env.resources.find? (·.name == name) with
  | some node =>
    let delta ← cb.visitResource node
    return (node, delta)
  | none => raise (unresolvedDependencies name)

def Environment.condition? : Maybe (Delta Bool) :=
  match env.conditions with
  | .ok conditions => conditions.lookup name
  | .error _ => none

def resolveCondition : Except Error (Delta Bool) :=
  match env.condition? name with
  | some delta => return delta
  | none => throw (.runtimeError ("No condition '" ++ name ++ "' was found."))

def resolveResourceConditionReference (reference : Delta String) : Except Error (Delta Bool) := do
  let before ← match reference.before with
    | some name => do
      let delta ← resolveCondition env name
      pure delta.before
    | none => pure none
  let after ← match reference.after with
    | some name => do
      let delta ← resolveCondition env name
      pure delta.after
    | none => pure none
  return ⟨before, after⟩

/-- `physical_resource_id`, which may be `None`. -/
def PreprocResource.reference (resource : PreprocResource) : Json :=
  match resource.physicalResourceId with
  | some id => .str id
  | none => .null

/-- `_resolve_reference`, with the physical id of a resource in place of the resource. -/
def resolveReference (logicalId : String) : Visit (Delta Json) := do
  if logicalId ∈ pseudoParameters then
    let value ← check (env.builtins.resolvePseudoParameter logicalId)
    return ⟨some value, some value⟩
  else
    match env.parameters logicalId with
    | some delta => check delta
    | none =>
      let resource ← getNodeResourceFor env cb logicalId
      return ⟨resource.2.before.map (·.reference), resource.2.after.map (·.reference)⟩

/-- One side of `Ref`. -/
def computeRef : Json → Visit (Maybe Json)
  | .str "AWS::NoValue" => return none
  | .str logicalId => do
    let delta ← resolveReference env cb logicalId
    return delta.select selectBefore
  | argument => raise (env.builtins.malformed argument)

/-- The text of the error for too few arguments of `Fn::GetAtt`. -/
def tooFewArguments : Error :=
  .other ("Template error: every Fn::GetAtt object requires two non-empty parameters, the " ++
    "resource name and the resource attribute")

/-- The logical id and the attribute that the arguments of `Fn::GetAtt` name. -/
def attributeArguments : Json → Except Error (String × String)
  | .str s =>
    match s.splitOn "." with
    | name :: first :: rest => return (name, String.intercalate "." (first :: rest))
    | _ => throw tooFewArguments
  | .arr [] => throw tooFewArguments
  | .arr [_] => throw tooFewArguments
  | .arr (.str name :: rest) => do
    let rest ← rest.mapM fun
      | .str s => pure s
      | argument => throw (env.builtins.malformed argument)
    return (name, String.intercalate "." rest)
  | argument => throw (env.builtins.malformed argument)

variable (condition : Delta Json) (node : NodeResource)

/-- The check of `_resolve_attribute` on the condition of the resource. The name of the
    condition is the one of before if there are two. -/
def checkCondition (selectBefore : Bool) : Except Error Unit :=
  match node.conditionReference with
  | none => return
  | some reference =>
    match reference.before <|> reference.after with
    | none => throw (.other "'NothingType' object has no attribute 'name'")
    | some name =>
      match env.condition? name with
      | none => throw (.other "'NothingType' object has no attribute 'name'")
      | some delta =>
        if (delta.select selectBefore).getD false then return
        else throw (unresolvedDependencies node.name)

/-- `_deployed_property_value_of`, after the visit of the resource. -/
def deployedPropertyValueOf (attributeName : String)
    (resolvedResources : Dict String ResolvedResource) : Except Error Json :=
  match resolvedResources.get? name with
  | none => throw (.runtimeError ("No deployed instances of resource '" ++ name ++ "' were found"))
  | some resource => env.builtins.attributeOf resource attributeName

/-- `_resolve_attribute`. The property of the template is the last resort. -/
def resolveAttribute (arguments : Json) (selectBefore : Bool) : Visit (Maybe Json) := do
  let (name, attributeName) ← check (attributeArguments env arguments)
  let (node, _) ← getNodeResourceFor env cb name
  check (checkCondition env node selectBefore)
  let s ← get
  let resolvedResources := if selectBefore then s.stack.resolvedResources else s.resources
  let value ← check (deployedPropertyValueOf env name attributeName resolvedResources)
  match value, node.properties.lookup attributeName with
  | .null, some property =>
    let delta ← cb.visitProperty node property
    return delta.select selectBefore
  | value, _ => return some value

/-! ### `Fn::Sub` -/

/-- Where the search for variables is: outside of them, after a dollar sign, or in a
    variable, with its name so far. -/
inductive Scanning
  | outside
  | dollar
  | inside (name : List Char)

/-- `re.findall("\\$\x7b([^\x7d]+)\x7d", template)`. -/
def templateVariables : Scanning → List Char → List String
  | _, [] => []
  | .outside, '$' :: rest => templateVariables .dollar rest
  | .outside, _ :: rest => templateVariables .outside rest
  | .dollar, '{' :: rest => templateVariables (.inside []) rest
  | .dollar, '$' :: rest => templateVariables .dollar rest
  | .dollar, _ :: rest => templateVariables .outside rest
  | .inside [], '}' :: rest => templateVariables .outside rest
  | .inside name, '}' :: rest => String.ofList name :: templateVariables .outside rest
  | .inside name, c :: rest => templateVariables (.inside (name ++ [c])) rest

/-- `except RuntimeError: pass`. -/
def passRuntimeError (m : Visit (Maybe Json)) : Visit (Maybe Json) :=
  Action.attempt m fun
    | .error (.runtimeError _) => pure none
    | e => throw e

/-- The value of a variable of `Fn::Sub`. -/
def templateVariableValue (subParameters : List (String × Json)) (selectBefore : Bool)
    (name : String) : Visit (Maybe Json) := do
  if name ∈ pseudoParameters then
    let value ← check (env.builtins.resolvePseudoParameter name)
    return some value
  else
    match subParameters.lookup name with
    | some value => return some value
    | none =>
      if '.' ∈ name.toList then
        passRuntimeError (resolveAttribute env cb (.str name) selectBefore)
      else
        passRuntimeError do
          let delta ← resolveReference env cb name
          return delta.select selectBefore

/-- The values of the variables of `Fn::Sub`, from left to right. -/
def templateVariableValues (cb : Callbacks) (subParameters : List (String × Json))
    (selectBefore : Bool) : List String → Visit (List (String × Json))
  | [] => return []
  | name :: names => do
    match ← templateVariableValue env cb subParameters selectBefore name with
    | none => raise (.runtimeError
        ("Undefined variable name in Fn::Sub string template '" ++ name ++ "'"))
    | some value =>
      let values ← templateVariableValues cb subParameters selectBefore names
      return (name, value) :: values

def computeSub (args : Json) : Visit (Maybe Json) := do
  let (stringTemplate, subParameters) ← check <| match args with
    | .str s => .ok (s, [])
    | .arr [.str s, .obj parameters] => .ok (s, parameters)
    | args => .error (.runtimeError ("Invalid arguments shape for Fn::Sub, expected a String " ++
        "or a Tuple of String and Map but got '" ++ env.builtins.str args ++ "'"))
  let values ← templateVariableValues env cb subParameters selectBefore
    (templateVariables .outside stringTemplate.toList)
  return some (← check (env.builtins.substitute stringTemplate values))

/-! ### Functions -/

/-- The condition that `Fn::If` or `Condition` names. -/
def namedCondition (name : Json) (missing : String → Error) : Except Error (Delta Bool) :=
  match name with
  | .str name =>
    match env.condition? name with
    | some delta => return delta
    | none => throw (missing name)
  | name => throw (missing (env.builtins.str name))

/-- What `Fn::Equals` and `Fn::Split` check of their arguments. -/
def checkArguments (after : Maybe Json) : Except Error Unit :=
  match function, after with
  | .fnEquals, some (.arr items) =>
    if items.length ≠ 2 then
      throw (.other
        "Template error: every Fn::Equals object requires a list of 2 string parameters.")
    else return
  | .fnSplit, none => return
  | .fnSplit, some (.arr [_, _]) => return
  | .fnSplit, some _ => throw (.other ("Template error: every Fn::Split object requires two " ++
      "parameters, (1) a string delimiter and (2) a string to be split or a function that " ++
      "returns a string to be split."))
  | _, _ => return

/-- One side of `Fn::FindInMap`, which does not look into the caches. -/
def findInMap (arguments : Maybe Json) : Except Error (Maybe Json) :=
  match arguments with
  | some value => if value.truthy then env.builtins.apply .fnFindInMap value else return none
  | none => return none

/-- The `visit_node_intrinsic_function_…` of all functions but `Fn::If`, after the visit
    of the arguments. -/
def visitFunction : Visit (Delta Json) := do
  match function with
  | .ref => cachedApply scope arguments (computeRef env cb)
  | .fnGetAtt =>
    cachedApply scope arguments fun selectBefore value =>
      resolveAttribute env cb value selectBefore
  | .fnSub => cachedApply scope arguments (computeSub env cb)
  | .condition =>
    cachedApply scope arguments fun selectBefore name => do
      let delta ← check (namedCondition env name fun name =>
        .runtimeError ("Undefined condition '" ++ name ++ "'"))
      return (delta.select selectBefore).map .bool
  | .fnFindInMap =>
    let before ← check (findInMap env arguments.before)
    let after ← check (findInMap env arguments.after)
    return ⟨before, after⟩
  | .fnTransform =>
    raise (.runtimeError "Fn::Transform should have been handled by the Transformer")
  | function =>
    check (checkArguments function arguments.after)
    cachedApply scope arguments fun _ value => check (env.builtins.apply function value)

/-- The branch that `Fn::If` takes on one side. -/
def selectsFirst (selectBefore : Bool) : Except Error (Maybe Bool) :=
  match condition.select selectBefore with
  | none => return none
  | some name => do
    let delta ← namedCondition env name fun name =>
      .other ("Template error: unresolved condition dependency " ++ name ++ " in Fn::If")
    return some ((delta.select selectBefore).getD false)

/-- One side of `Fn::If`. -/
def visitIf (selectBefore : Bool) (first second : Visit (Delta Json)) : Visit (Maybe Json) := do
  match ← check (selectsFirst env condition selectBefore) with
  | none => return none
  | some branch =>
    let delta ← (if branch then first else second)
    return delta.select selectBefore

/-! ### Entities -/

/-- What the visit of a terminal value finds. -/
def TerminalValue.delta : TerminalValue → Delta Json
  | created value => ⟨none, some value⟩
  | removed value => ⟨some value, none⟩
  | unchanged value => ⟨some value, some value⟩
  | modified value modifiedValue => ⟨some value, some modifiedValue⟩

/-- One side of an object, or of an array. The container itself is there on this side
    unless its change type says otherwise. -/
def side {α : Type} (absent changeType : ChangeType) (container : List α → Json)
    (items : List α) : Maybe Json :=
  if changeType ≠ absent then some (container items) else none

def membersOf : List (String × Json) :=
  deltas.filterMap fun d => (d.2.select selectBefore).map (d.1, ·)

def elementsOf (deltas : List (Delta Json)) (selectBefore : Bool) : List Json :=
  deltas.filterMap (·.select selectBefore)

mutual

/-- `visit` of the entities below the properties of a resource. -/
def visitValue (cb : Callbacks) : Entity → Visit (Delta Json)
  | .terminal scope value => cached env scope (pure value.delta)
  | .divergence scope value divergence => cached env scope do
    let before ← visitValue cb value
    let after ← visitValue cb divergence
    return ⟨before.before, after.after⟩
  | .object scope changeType bindings => cached env scope do
    let deltas ← visitBindings cb bindings
    return ⟨side .created changeType .obj (membersOf deltas true),
      side .removed changeType .obj (membersOf deltas false)⟩
  | .array scope changeType array => cached env scope do
    let deltas ← visitItems cb array
    return ⟨side .created changeType .arr (elementsOf deltas true),
      side .removed changeType .arr (elementsOf deltas false)⟩
  | .property scope _ value => cached env scope (visitValue cb value)
  | .function scope _ .fnIf (.array _ _ [condition, first, second]) => cached env scope do
    let condition ← visitValue cb condition
    let before ← visitIf env condition true (visitValue cb first) (visitValue cb second)
    let after ← visitIf env condition false (visitValue cb first) (visitValue cb second)
    return ⟨before, after⟩
  | .function scope _ .fnIf (.array _ _ items) => cached env scope <|
    raise (.other ("Incorrectly constructed Fn::If usage, expected 3 arguments, found " ++
      toString items.length))
  | .function scope _ .fnIf _ => cached env scope <|
    raise (.other "object has no attribute 'array'")
  | .function scope _ function arguments => cached env scope do
    let arguments ← visitValue cb arguments
    visitFunction env cb scope function arguments

def visitBindings (cb : Callbacks) : List (String × Entity) → Visit (List (String × Delta Json))
  | [] => return []
  | (name, entity) :: bindings => do
    let delta ← visitValue cb entity
    let deltas ← visitBindings cb bindings
    return (name, delta) :: deltas

def visitItems (cb : Callbacks) : List Entity → Visit (List (Delta Json))
  | [] => return []
  | entity :: items => do
    let delta ← visitValue cb entity
    let deltas ← visitItems cb items
    return delta :: deltas

end

/-- `None` is no value for a property. -/
def propertiesOf : List (String × Json) :=
  (membersOf deltas selectBefore).filter fun m => match m.2 with
    | .null => false
    | _ => true

/-- `visit_node_properties`. -/
def visitProperties : Visit (Delta Json) :=
  cached env node.propertiesScope do
    let deltas ← visitBindings env cb node.properties
    return ⟨side .created node.propertiesChangeType .obj (propertiesOf deltas true),
      side .removed node.propertiesChangeType .obj (propertiesOf deltas false)⟩

end LocalEmu.CloudFormation
