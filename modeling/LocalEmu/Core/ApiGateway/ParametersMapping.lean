import LocalEmu.Core.ApiGateway.Parse
import LocalEmu.Base.JsonText
import Mathlib.Data.List.DropRight

/-!
# Parameter Mappings

An integration has a mapping of parameters: the headers, path parameters and query parameters of
the integration request, each with an expression for its value. An expression names a part of the
request, a context or a stage variable, or is a text in quotes.

All the mappings are read in one loop. What one of them raises ends it.
-/

namespace LocalEmu.ApiGateway

variable {F : Type}

/-- What reading the mappings may raise. -/
inductive Failure
  | valueError
  | typeError
  | attributeError
  | keyError
  | unicodeDecodeError
  | jsonPathError
  | badRequest (message : Text)
  deriving DecidableEq

/-- `json.loads`, the matches of a JSON path, and which floats are true. -/
structure JsonLibrary (F : Type) where
  loads : Bytes → Option (JsonValue F)
  find : JsonValue F → Text → Except Failure (List (JsonValue F))
  isTrue : F → Bool
  loads_empty : loads [0x7B, 0x7D] = some (.obj [])

structure RequestDataMapping (F : Type) where
  header : Dict Text (JsonValue F)
  path : Dict Text (JsonValue F)
  querystring : Dict Text (JsonValue F)

/-! ### Texts and values -/

/-- `text.removeprefix(start)`. -/
def removeStart (start text : Text) : Text :=
  if start.isPrefixOf text then text.drop start.length else text

/-- `first, second = text.split(".")`. -/
def splitDot (text : Text) : Except Failure (Text × Text) :=
  match text.splitOn '.' with
  | [first, second] => .ok (first, second)
  | _ => .error .valueError

/-- `text.strip("'")`. -/
def stripQuotes (text : Text) : Text :=
  (text.dropWhile fun c => c == '\'').rdropWhile fun c => c == '\''

/-- The bytes that `strip` removes. -/
def isSpaceByte (byte : UInt8) : Bool := byte == 32 || (9 ≤ byte && byte ≤ 13)

/-- `body.strip()`. -/
def stripBytes (body : Bytes) : Bytes := (body.dropWhile isSpaceByte).rdropWhile isSpaceByte

variable (library : JsonLibrary F)

def truthy : JsonValue F → Bool
  | .null => false
  | .bool b => b
  | .int n => n ≠ 0
  | .float x => library.isTrue x
  | .str s => s ≠ []
  | .arr items => !items.isEmpty
  | .obj members => !members.isEmpty

def buildMultiValueHeaders (headers : Headers) : Dict Text (List Text) :=
  (Dict.group Prod.fst headers).mapValues fun items => items.map Prod.snd

/-! ### Expressions -/

/-- `_json_load`, which decodes only what starts with a bracket or a quote. -/
def jsonLoad (body : Bytes) : Except Failure (JsonValue F) :=
  match body with
  | 0x7B :: _ | 0x5B :: _ | 0x27 :: _ | 0x22 :: _ =>
    match library.loads body with
    | some value => .ok value
    | none => .error .valueError
  | _ => .ok (.obj [])

def getJsonPathFromDict (value : JsonValue F) (path : Text) :
    Except Failure (Option (JsonValue F)) :=
  match library.find value ("$.".toList ++ path) with
  | .ok [found] => .ok (some found)
  | .ok found => .ok (some (.arr found))
  | .error .keyError => .ok none
  | .error failure => .error failure

/-- The body of a request: an object if there is none. -/
def bodyOf (request : InvocationRequest) : Bytes :=
  stripBytes (if request.body = [] then [0x7B, 0x7D] else request.body)

/-- The part of `_retrieve_parameter_from_invocation_request` for the body. -/
def retrieveBody (expr : Text) (request : InvocationRequest) :
    Except Failure (Option (JsonValue F)) :=
  match jsonLoad library (bodyOf request) with
  | .error _ => .error (.badRequest "Invalid JSON in request body".toList)
  | .ok decoded =>
    if expr = "body".toList then
      match Text.decode (bodyOf request) with
      | some text => .ok (some (.str text))
      | none => .error .unicodeDecodeError
    else if "body.".toList.isPrefixOf expr then
      getJsonPathFromDict library decoded (removeStart "body.".toList expr)
    else .ok none

def retrieveParameterFromInvocationRequest (expr : Text) (request : InvocationRequest)
    (headers : Dict Text (List Text)) :
    Except Failure (Option (JsonValue F)) :=
  if "body".toList.isPrefixOf expr then retrieveBody library expr request
  else
    match splitDot expr with
    | .error failure => .error failure
    | .ok (type, name) =>
      if type = "path".toList then .ok ((request.pathParameters.get? name).map .str)
      else if type = "querystring".toList then
        .ok (((request.multiValueQueryStringParameters.get? name).bind List.getLast?).map .str)
      else if type = "multivaluequerystring".toList then
        match request.multiValueQueryStringParameters.get? name with
        | none => .error .typeError
        | some [value] => .ok (some (.str value))
        | some values => .ok (some (.arr (values.map .str)))
      else if type = "header".toList then
        .ok (((headers.get? name).bind List.getLast?).map .str)
      else if type = "multivalueheader".toList then
        .ok (((headers.get? name).filter fun values => !values.isEmpty).map fun values =>
          .str ([','].intercalate values))
      else .ok none

/-- `_retrieve_parameter_from_context_variables`, which yields texts only. -/
def retrieveParameterFromContextVariables (expr : Text)
    (contextVariables : JsonValue F) : Except Failure (Option (JsonValue F)) :=
  match getJsonPathFromDict library contextVariables expr with
  | .error failure => .error failure
  | .ok (some (.str [])) => .ok none
  | .ok (some (.str text)) => .ok (some (.str text))
  | .ok _ => .ok none

def retrieveParameterFromVariablesAndStatic (mappingValue : Text) (contextVariables : JsonValue F)
    (stageVariables : Option (Dict Text Text)) :
    Except Failure (Option (JsonValue F)) :=
  if "context.".toList.isPrefixOf mappingValue then
    retrieveParameterFromContextVariables library (removeStart "context.".toList mappingValue)
      contextVariables
  else if "stageVariables.".toList.isPrefixOf mappingValue then
    match stageVariables with
    | none => .error .attributeError
    | some stageVariables =>
      .ok ((stageVariables.get? (removeStart "stageVariables.".toList mappingValue)).map .str)
  else if mappingValue.head? = some '\'' ∧ mappingValue.getLast? = some '\'' then
    .ok (some (.str (stripQuotes mappingValue)))
  else .ok none

/-! ### The loop -/

/-- What the mappings read. -/
structure MappingInput (F : Type) where
  request : InvocationRequest
  contextVariables : JsonValue F
  stageVariables : Option (Dict Text Text)

def retrieveParameter (input : MappingInput F) (requestMapping : Text) :
    Except Failure (Option (JsonValue F)) :=
  if "method.request.".toList.isPrefixOf requestMapping then
    retrieveParameterFromInvocationRequest library
      (removeStart "method.request.".toList requestMapping) input.request
      (buildMultiValueHeaders input.request.headers)
  else
    retrieveParameterFromVariablesAndStatic library requestMapping input.contextVariables
      input.stageVariables

/-- `request_data_mapping[location][name] = value`. -/
def RequestDataMapping.store (out : RequestDataMapping F) (location name : Text)
    (value : JsonValue F) : Except Failure (RequestDataMapping F) :=
  if location = "header".toList then .ok { out with header := out.header.set name value }
  else if location = "path".toList then .ok { out with path := out.path.set name value }
  else if location = "querystring".toList then
    .ok { out with querystring := out.querystring.set name value }
  else .error .keyError

/-- One step of the loop of `map_integration_request`. -/
def mapParameter (input : MappingInput F) (out : RequestDataMapping F)
    (entry : Text × Text) : Except Failure (RequestDataMapping F) :=
  match splitDot (removeStart "integration.request.".toList entry.1) with
  | .error failure => .error failure
  | .ok (location, name) =>
    match retrieveParameter library input entry.2 with
    | .error failure => .error failure
    | .ok value =>
      match value.filter (truthy library) with
      | none => .ok out
      | some value => out.store location name value

/-- The loop. -/
def mapIntegrationRequest (requestParameters : Dict Text Text)
    (input : MappingInput F) : Except Failure (RequestDataMapping F) :=
  requestParameters.entries.foldlM (mapParameter library input) ⟨.empty, .empty, .empty⟩

end LocalEmu.ApiGateway
